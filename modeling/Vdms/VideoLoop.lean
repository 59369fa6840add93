import Vdms.ImageLoop

/-!
# The Event Loop of Videos

`VCL::Video` with its operations, and `VideoLoop`, the event loop of `FindVideo`. A video
goes through all of its operations up to the next remote one in one turn. A video that is
stored over another in the map keeps what the assignment operator does not swap: the file
with its result, until that is set, and its error.

## Main results

* `VideoLoop.account`: what is known of the videos of a loop in which nothing fails.
-/

namespace Vdms

open Relation
open Std (TreeMap)

namespace VCL

/-- `VCL::Video`. Of a video whose operations have been applied, `operated` is the content
of the file `_operated_video_id`. -/
structure Video (Data : Type) where
  videoId : String
  operations : List Operation
  operated : Option Data
  queryErrorResponse : String

/-- The libraries and services that videos depend on. -/
structure VideoLibrary (Data : Type) where
  /-- The file of the video. -/
  source : String → Option Data
  /-- What `perform_operations` makes of a file. -/
  perform : List Operation → Data → Except Message Data → Prop
  /-- The answer of the remote service. -/
  answer : Data → Data → Prop
  /-- `VCL::Video video(path)` does not throw. -/
  opens : String → Bool
  /-- The content of a file; `none` if it cannot be read. -/
  readFile : String → Option Bytes
  /-- The file in a container and with a codec, or an exception. -/
  encode : String → String → Data → Except RequestError Bytes

namespace Video

variable {Data : Type} (L : VideoLibrary Data)

/-- The file an operation starts from. -/
def current (video : Video Data) : Option Data :=
  match video.operated with
  | some data => some data
  | none => L.source video.videoId

/-- The operations up to the next remote one. -/
def toRemote (video : Video Data) : List Operation :=
  video.operations.takeWhile fun op => !op.isRemote

/-- The operations from the next remote one on. -/
def fromRemote (video : Video Data) : List Operation :=
  video.operations.dropWhile fun op => !op.isRemote

/-- `execute_operations()`: the video, or its error, after the operations up to the next
remote one. -/
inductive ExecuteOperations (video : Video Data) : Except Message (Video Data) → Prop where
  | nothing : video.toRemote = [] →
      ExecuteOperations video (.ok { video with operations := video.fromRemote })
  | performed {data result} : video.toRemote ≠ [] → video.current L = some data →
      L.perform video.toRemote data (.ok result) →
      ExecuteOperations video
        (.ok { video with operations := video.fromRemote, operated := some result })
  | thrown {data msg} : video.toRemote ≠ [] → video.current L = some data →
      L.perform video.toRemote data (.error msg) → ExecuteOperations video (.error msg)
  | missing {msg} : video.toRemote ≠ [] → video.current L = none →
      ExecuteOperations video (.error msg)

/-- One turn: `execute_operations()`, then `execute_operations(true)` if a remote operation
is left, which takes it from the list. -/
inductive Turn (video : Video Data) : Vdms.Turn (Video Data) → Prop where
  | failed {msg} : ExecuteOperations L video (.error msg) →
      Turn video (.failed { video with queryErrorResponse := msg })
  | stored {video'} : ExecuteOperations L video (.ok video') → video'.operations = [] →
      Turn video (.stored video')
  | remote {video' op rest} : ExecuteOperations L video (.ok video') →
      video'.operations = op :: rest →
      Turn video (.remote
        { video' with operations := rest, operated := video'.current L })

end Video

end VCL

open VCL

/-- `result.first->second = video`: the operated file and the error are not swapped. -/
def VCL.Video.assign {Data : Type} (prior : Option (Video Data)) (video : Video Data) :
    Video Data :=
  match prior with
  | none => video
  | some old =>
      { video with operated := old.operated, queryErrorResponse := old.queryErrorResponse }

/-- What differs between `VideoLoop` and another event loop. -/
def videoLoop {Data : Type} (L : VideoLibrary Data) : LoopKind (Video Data) where
  key := Video.videoId
  copy := id
  turn := Video.Turn L
  sendable _ := True
  answer video video' := ∃ data data', video.operated = some data ∧ L.answer data data' ∧
    video' = { video with operated := some data' }
  undecoded _ _ := False
  reject video video' := ∃ msg : VCL.Message, video' = { video with queryErrorResponse := msg }
  store prior video := { Video.assign prior video with operated := video.operated }
  storeAnswer := Video.assign
  storeError := Video.assign
  leavesBatch := true

namespace VCL.Video

variable {Data : Type} {L : VideoLibrary Data}

/-- The operations have been applied to the file, each once and in order. -/
inductive Applied (L : VideoLibrary Data) (source : Option Data) :
    List Operation → Option Data → Prop where
  | nil : Applied L source [] source
  | perform {ops ops' data result} : Applied L source ops (some data) →
      L.perform ops' data (.ok result) → Applied L source (ops ++ ops') (some result)
  | remote {ops op data result} : Applied L source ops (some data) → L.answer data result →
      Applied L source (ops ++ [op]) (some result)

/-- The video is the entity with all of its operations applied. -/
structure Finished (L : VideoLibrary Data) (entity video : Video Data) : Prop where
  videoId : video.videoId = entity.videoId
  applied : Applied L (entity.current L) entity.operations (video.current L)

theorem toRemote_append_fromRemote (video : Video Data) :
    video.toRemote ++ video.fromRemote = video.operations :=
  List.takeWhile_append_dropWhile

/-- What `execute_operations()` has done when it succeeds. -/
theorem ExecuteOperations.applied {video video' : Video Data} {source : Option Data}
    {ops : List Operation} (h : ExecuteOperations L video (.ok video'))
    (happlied : Applied L source ops (video.current L)) :
    video'.videoId = video.videoId ∧
      ∃ ops', ops' ++ video'.operations = ops ++ video.operations ∧
        Applied L source ops' (video'.current L) := by
  have hsplit := toRemote_append_fromRemote video
  cases h with
  | nothing hnone =>
      rw [hnone, List.nil_append] at hsplit
      exact ⟨rfl, ops, by rw [hsplit], happlied⟩
  | @performed data result hne hdata hperform =>
      rw [hdata] at happlied
      refine ⟨rfl, ops ++ video.toRemote, ?_, happlied.perform hperform⟩
      rw [List.append_assoc, hsplit]

end VCL.Video

namespace VideoLoop

open VCL.Video EventLoop

variable {Data : Type} {L : VideoLibrary Data}

/-- The video comes from one of the entities: some of its operations have been applied, and
the others are left. -/
def Ready (L : VideoLibrary Data) (entities : List (Video Data)) (video : Video Data) : Prop :=
  ∃ entity ∈ entities, video.videoId = entity.videoId ∧
    ∃ ops, ops ++ video.operations = entity.operations ∧
      Applied L (entity.current L) ops (video.current L)

/-- The same, where one operation is about to be applied by the remote service. -/
def Handed (L : VideoLibrary Data) (entities : List (Video Data)) (video : Video Data) : Prop :=
  ∃ entity ∈ entities, video.videoId = entity.videoId ∧
    ∃ ops op, ops ++ op :: video.operations = entity.operations ∧
      Applied L (entity.current L) ops video.operated

/-- The entry is the entity of the key, finished. -/
def Recorded (L : VideoLibrary Data) (entities : List (Video Data)) (key : String)
    (video : Video Data) : Prop :=
  video.videoId = key ∧ ∃ entity ∈ entities, Finished L entity video

/-- One turn at a video that comes from an entity. -/
theorem turn_cases {entities : List (Video Data)} {video : Video Data}
    {turn : Vdms.Turn (Video Data)} (h : Ready L entities video)
    (hturn : Video.Turn L video turn) :
    (∃ msg : VCL.Message, turn = .failed { video with queryErrorResponse := msg }) ∨
    (∃ video', turn = .stored video' ∧ video'.videoId = video.videoId ∧
      ∃ entity ∈ entities, Finished L entity video') ∨
    ∃ video', turn = .remote video' ∧ video'.videoId = video.videoId ∧
      Handed L entities video' := by
  obtain ⟨entity, hentity, hid, ops, hops, happlied⟩ := h
  cases hturn with
  | @failed msg hexec => exact .inl ⟨msg, rfl⟩
  | @stored video' hexec hnil =>
      obtain ⟨hid', ops', hops', happlied'⟩ := hexec.applied happlied
      refine .inr (.inl ⟨video', rfl, hid', entity, hentity, hid'.trans hid, ?_⟩)
      rw [hnil, List.append_nil, hops] at hops'
      rwa [← hops']
  | @remote video' op rest hexec hcons =>
      obtain ⟨hid', ops', hops', happlied'⟩ := hexec.applied happlied
      refine .inr (.inr ⟨_, rfl, hid', entity, hentity, hid'.trans hid, ops', op, ?_, ?_⟩)
      · rw [← hops, ← hops', hcons]
      · exact happlied'

/-- The account of a loop over these entities in which nothing fails. Every video is left to
be stored. -/
def account (L : VideoLibrary Data) (entities : List (Video Data)) :
    Account (videoLoop L) (entities.map Video.videoId) where
  fresh video := video ∈ entities
  ready := Ready L entities
  handed := Handed L entities
  left _ := True
  recorded := Recorded L entities
  recordsErrors := False
  copy_key _ := rfl
  fresh_copy hvideo := ⟨⟨_, hvideo, rfl, [], rfl, .nil⟩, trivial⟩
  ready_copy hready := ⟨hready, Iff.rfl⟩
  handed_copy hhanded := hhanded
  ready_key := by
    rintro video ⟨entity, hentity, hid, -⟩
    exact List.mem_map.mpr ⟨entity, hentity, hid.symm⟩
  handed_key := by
    rintro video ⟨entity, hentity, hid, -⟩
    exact List.mem_map.mpr ⟨entity, hentity, hid.symm⟩
  done hready hturn := by cases hturn
  settled _ hleft _ := absurd trivial hleft
  applied hready hturn := by cases hturn
  stored hready hturn := by
    rcases turn_cases hready hturn with ⟨_, hturn⟩ | ⟨_, hturn, hid, hfinished⟩ | ⟨_, hturn, -⟩
    · cases hturn
    · cases hturn
      refine ⟨hid, fun prior => ?_⟩
      obtain ⟨entity, hentity, hfinished⟩ := hfinished
      cases prior with
      | none => exact ⟨rfl, entity, hentity, hfinished⟩
      | some old => exact ⟨rfl, entity, hentity, hfinished.videoId, hfinished.applied⟩
    · cases hturn
  hand hready hturn := by
    rcases turn_cases hready hturn with ⟨_, hturn⟩ | ⟨_, hturn, -⟩ | ⟨_, hturn, hid, hhanded⟩
    · cases hturn
    · cases hturn
    · cases hturn
      exact ⟨hid, hhanded⟩
  fail hready hturn := by
    rcases turn_cases hready hturn with ⟨_, hturn⟩ | ⟨_, hturn, -⟩ | ⟨_, hturn, -⟩
    · cases hturn
      exact ⟨rfl, False.elim⟩
    · cases hturn
    · cases hturn
  sendable _ := trivial
  answer := by
    rintro video video' ⟨entity, hentity, hid, ops, op, hops, happlied⟩
      ⟨data, data', hdata, hanswer, rfl⟩
    rw [hdata] at happlied
    refine ⟨rfl, ⟨entity, hentity, hid, ops ++ [op], ?_, happlied.remote hanswer⟩,
      fun hleft => absurd trivial hleft⟩
    rw [← hops, List.append_assoc, List.singleton_append]
  undecoded _ h := h.elim
  reject := by
    rintro video video' - ⟨msg, rfl⟩
    exact ⟨rfl, False.elim⟩

end VideoLoop

end Vdms
