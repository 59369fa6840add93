import Mathlib.Algebra.Ring.Nat
import Mathlib.Data.List.Sort
import Mathlib.Data.List.TakeWhile
import Mathlib.Tactic.Common

/-!
# Decoding with Key Frames

`KeyFrameDecoder` decodes the frames of a query interval by interval, each from its key frame
on, or from where the decoder is. It takes the frames in the order of the query, and expects
them in ascending order: within an interval it waits for one frame after the other.

## Main results

* `Decoder.Synced`, `synced_history`: the decoder knows where it is.
* `decode_agrees_iff`: the queries whose frames are those of the plain decoding.
-/

namespace Vdms

namespace VCL

namespace KeyFrames

/-- The largest `unsigned`. -/
def maxUnsigned : ℕ := 2 ^ 32 - 1

/-- A video: the pictures of its frames. -/
structure VideoStream (Picture : Type) where
  picture : ℕ → Picture
  frameCount : ℕ
  frameCount_le : frameCount ≤ maxUnsigned

/-- `FrameInterval`, with the numbers of its key frames. -/
structure FrameInterval where
  start : ℕ
  stop : ℕ
deriving DecidableEq

/-- `populate_intervals`, of a list in order: from each key frame to the next, and from the
last one on. -/
def populateIntervals : List ℕ → List FrameInterval
  | [] => []
  | [key] => [⟨key, maxUnsigned⟩]
  | key :: key' :: keys => ⟨key, key'⟩ :: populateIntervals (key' :: keys)

/-- `populate_interval_map`: an interval gets the next frames up to one that is not before its
end. -/
def populateIntervalMap : List FrameInterval → List ℕ → List (FrameInterval × List ℕ)
  | [], _ => []
  | interval :: intervals, frames =>
    (interval, frames.takeWhile (· < interval.stop)) ::
      populateIntervalMap intervals (frames.dropWhile (· < interval.stop))

/-- The state of a `KeyFrameDecoder`: `_last_consumed_frame`, -1 at first, and the frame that
the stream gives out next. -/
structure Decoder where
  lastConsumedFrame : ℤ
  position : ℕ
deriving DecidableEq

/-- A new decoder. -/
def Decoder.new : Decoder := ⟨-1, 0⟩

/-- The loop of `decode_interval` from `idx` on, waiting for the first of the frames; so many
frames remain in the stream. The frames in the list are those that the stream gave out. -/
def decodeLoop (stop : ℕ) : ℕ → ℕ → List ℕ → Decoder → List ℕ × Decoder
  | 0, _, _, d => ([], d)
  | _ + 1, _, [], d => ([], d)
  | remaining + 1, idx, frame :: frames, d =>
    if idx < stop then
      let consumed : Decoder := ⟨idx, d.position + 1⟩
      if idx = frame then
        if frames = [] then ([d.position], consumed)
        else
          let (out, d') := decodeLoop stop remaining (idx + 1) frames consumed
          (d.position :: out, d')
      else decodeLoop stop remaining (idx + 1) (frame :: frames) consumed
    else ([], d)

/-- `decode_interval`, of a stream with so many frames. -/
def decodeInterval (frameCount : ℕ) (interval : FrameInterval) (frames : List ℕ) (d : Decoder) :
    List ℕ × Decoder :=
  let firstFrame := frames.headD 0
  if d.lastConsumedFrame < firstFrame ∧ (interval.start : ℤ) ≤ d.lastConsumedFrame then
    decodeLoop interval.stop (frameCount - d.position) (d.lastConsumedFrame + 1).toNat frames d
  else
    let sought : Decoder := { d with position := interval.start }
    decodeLoop interval.stop (frameCount - sought.position) interval.start frames sought

/-- The loop of `decode` over the intervals that have frames. -/
def decodeIntervals (frameCount : ℕ) :
    List (FrameInterval × List ℕ) → Decoder → List ℕ × Decoder
  | [], d => ([], d)
  | (interval, frames) :: intervals, d =>
    if frames = [] then decodeIntervals frameCount intervals d
    else
      let (out, d') := decodeInterval frameCount interval frames d
      let (out', d'') := decodeIntervals frameCount intervals d'
      (out ++ out', d'')

/-- `decode`: the frames, or the exceptions of `populate_interval_map` and `encode_frames`. -/
def decode (frameCount : ℕ) (keys frames : List ℕ) (d : Decoder) :
    Except String (List ℕ) × Decoder :=
  if frames = [] then (.error "populate_interval_map", d)
  else
    let (out, d') := decodeIntervals frameCount
      (populateIntervalMap (populateIntervals keys) frames) d
    if out = [] then (.error "encode_frames", d') else (.ok out, d')

section Paths

variable {Picture : Type}

/-- `Video::get_frames` with key frames. -/
def getFrames (v : VideoStream Picture) (keys frameList : List ℕ) (d : Decoder) :
    Except String (List Picture) × Decoder :=
  if frameList = [] then (.ok [], d)
  else
    let (frames, d') := decode v.frameCount keys frameList d
    (frames.map fun frames => frames.map v.picture, d')

/-- `Video::get_frames` without them: `get_frame` for each. -/
def getFramesPlain (v : VideoStream Picture) (frameList : List ℕ) : Except String (List Picture) :=
  frameList.mapM fun frame =>
    if v.frameCount ≤ frame then .error "Frame requested is out of bounds"
    else .ok (v.picture frame)

/-- The decoder after some queries. -/
def after (v : VideoStream Picture) (keys : List ℕ) (history : List (List ℕ)) : Decoder :=
  history.foldl (fun d frameList => (getFrames v keys frameList d).2) .new

/-- The two ways give the same, and each frame is with the interval that contains it, and with
no other. -/
structure Agrees (v : VideoStream Picture) (keys frameList : List ℕ) (d : Decoder) : Prop where
  frames : (getFrames v keys frameList d).1 = getFramesPlain v frameList
  assigned : ∀ p ∈ populateIntervalMap (populateIntervals keys) frameList, ∀ frame ∈ frameList,
    frame ∈ p.2 ↔ p.1.start ≤ frame ∧ frame < p.1.stop

end Paths

/-! ### Intervals -/

/-- The intervals follow each other, from `key` on. -/
inductive Chain : ℕ → List FrameInterval → Prop where
  | nil {key : ℕ} : Chain key []
  | cons {key stop : ℕ} {intervals : List FrameInterval} (hle : key ≤ stop)
      (hrest : Chain stop intervals) : Chain key (⟨key, stop⟩ :: intervals)

section Intervals

variable {key : ℕ} {keys frames : List ℕ} {intervals : List FrameInterval} {d : Decoder}
  {frameCount stop remaining idx frame : ℕ}

theorem chain_populateIntervals (hsorted : (key :: keys).Pairwise (· ≤ ·))
    (hmax : ∀ k ∈ key :: keys, k ≤ maxUnsigned) :
    Chain key (populateIntervals (key :: keys)) := by
  induction keys generalizing key with
  | nil => exact .cons (hmax key List.mem_cons_self) .nil
  | cons key' keys ih =>
    have hrest := List.pairwise_cons.1 hsorted
    exact .cons (hrest.1 key' List.mem_cons_self)
      (ih hrest.2 fun k hk => hmax k (List.mem_cons_of_mem _ hk))

/-- An interval starts at a key frame. -/
theorem start_mem : ∀ {keys : List ℕ}, ∀ interval ∈ populateIntervals keys, interval.start ∈ keys
  | [], _, h => by simp [populateIntervals] at h
  | [key], interval, h => by
    obtain rfl : interval = ⟨key, maxUnsigned⟩ := by simpa [populateIntervals] using h
    exact List.mem_cons_self
  | key :: key' :: keys, interval, h => by
    rcases List.mem_cons.1 h with rfl | h
    · exact List.mem_cons_self
    · exact List.mem_cons_of_mem _ (start_mem interval h)

theorem Chain.le_start (h : Chain key intervals) :
    ∀ interval ∈ intervals, key ≤ interval.start := by
  induction h with
  | nil => simp
  | cons hle _ ih =>
    intro interval hinterval
    rcases List.mem_cons.1 hinterval with rfl | hinterval
    · exact le_rfl
    · exact hle.trans (ih interval hinterval)

theorem fst_mem {p : FrameInterval × List ℕ} (h : p ∈ populateIntervalMap intervals frames) :
    p.1 ∈ intervals := by
  induction intervals generalizing frames with
  | nil => simp [populateIntervalMap] at h
  | cons interval intervals ih =>
    rcases List.mem_cons.1 h with rfl | h
    · exact List.mem_cons_self
    · exact List.mem_cons_of_mem _ (ih h)

theorem head_dropWhile (frames : List ℕ) :
    ∀ frame ∈ (frames.dropWhile (· < stop)).head?, stop ≤ frame := by
  induction frames with
  | nil => simp
  | cons first frames ih =>
    rw [List.dropWhile_cons]
    split
    next => exact ih
    next h => simpa using h

/-- The frames of an interval are before its end, and begin in it. -/
theorem frames_of_chain (frames : List ℕ) (hchain : Chain key intervals)
    (hhead : ∀ frame ∈ frames.head?, key ≤ frame) :
    ∀ p ∈ populateIntervalMap intervals frames,
      (∀ frame ∈ p.2.head?, p.1.start ≤ frame) ∧ (∀ frame ∈ p.2, frame < p.1.stop) ∧
        p.2 ⊆ frames := by
  induction hchain generalizing frames with
  | nil => simp [populateIntervalMap]
  | @cons key stop intervals hle hrest ih =>
    intro p hp
    rcases List.mem_cons.1 hp with rfl | hp
    · refine ⟨fun frame hframe => hhead frame ?_, fun frame hframe => ?_,
        (List.takeWhile_sublist _).subset⟩
      · cases frames with
        | nil => simp at hframe
        | cons first frames =>
          dsimp only at hframe
          rw [List.takeWhile_cons] at hframe
          split at hframe
          · exact hframe
          · simp at hframe
      · simpa using List.mem_takeWhile_imp hframe
    · obtain ⟨hfirst, hlt, hsub⟩ := ih _ (head_dropWhile frames) p hp
      exact ⟨hfirst, hlt, fun frame hframe =>
        (List.dropWhile_sublist _).subset (hsub hframe)⟩

/-- Every frame is with some interval, if there is one up to the largest number. -/
theorem flatten_frames (frames : List ℕ) (hkeys : keys ≠ [])
    (hframes : ∀ frame ∈ frames, frame < maxUnsigned) :
    ((populateIntervalMap (populateIntervals keys) frames).map Prod.snd).flatten = frames := by
  induction keys generalizing frames with
  | nil => exact absurd rfl hkeys
  | cons key keys ih =>
    cases keys with
    | nil =>
      have hall : frames.takeWhile (· < maxUnsigned) = frames :=
        List.takeWhile_eq_self_iff.2 fun frame hframe => by simpa using hframes frame hframe
      simp only [populateIntervals, populateIntervalMap, List.map_cons, List.map_nil,
        List.flatten_cons, List.flatten_nil, List.append_nil, hall]
    | cons key' keys =>
      have hrest := ih (frames.dropWhile (· < key')) (by simp)
        fun frame hframe => hframes frame ((List.dropWhile_sublist _).subset hframe)
      simp only [populateIntervals, populateIntervalMap, List.map_cons, List.flatten_cons, hrest,
        List.takeWhile_append_dropWhile]

/-! ### Where the decoder is -/

/-- The next frame of the stream is the one after the last that was consumed. -/
def Decoder.Synced (d : Decoder) : Prop :=
  d.lastConsumedFrame = -1 ∨ (d.position : ℤ) = d.lastConsumedFrame + 1

theorem Decoder.synced_consumed : (⟨idx, idx + 1⟩ : Decoder).Synced := .inr (by simp)

/-- A loop that starts where the decoder is. It may have been put there by a seek, and goes at
least one frame then. -/
theorem decodeLoop_synced (hposition : d.position = idx)
    (hstart : d.Synced ∨ 0 < remaining ∧ idx < stop ∧ frames ≠ []) :
    (decodeLoop stop remaining idx frames d).2.Synced := by
  induction remaining generalizing idx frames d with
  | zero =>
    rw [decodeLoop]
    exact hstart.resolve_right fun h => by omega
  | succ remaining ih =>
    cases frames with
    | nil =>
      rw [decodeLoop]
      exact hstart.resolve_right fun h => h.2.2 rfl
    | cons frame frames =>
      have hconsumed : (⟨idx, d.position + 1⟩ : Decoder).Synced :=
        hposition ▸ Decoder.synced_consumed
      have hnext : (⟨idx, d.position + 1⟩ : Decoder).position = idx + 1 := by rw [hposition]
      rw [decodeLoop]
      split
      next =>
        dsimp only
        split
        next =>
          split
          next => exact hconsumed
          next => exact ih hnext (.inl hconsumed)
        next => exact ih hnext (.inl hconsumed)
      next h => exact hstart.resolve_right fun h' => h h'.2.1

theorem decodeInterval_synced {interval : FrameInterval} (hd : d.Synced)
    (hlt : interval.start < interval.stop) (hcount : interval.start < frameCount)
    (hframes : frames ≠ []) : (decodeInterval frameCount interval frames d).2.Synced := by
  rw [decodeInterval]
  dsimp only
  split
  next h =>
    have hposition : (d.position : ℤ) = d.lastConsumedFrame + 1 :=
      hd.resolve_left fun hnew => by omega
    exact decodeLoop_synced (by omega) (.inl hd)
  next => exact decodeLoop_synced rfl (.inr ⟨by omega, hlt, hframes⟩)

theorem decodeIntervals_synced (frameCount : ℕ) {l : List (FrameInterval × List ℕ)} (hd : d.Synced)
    (h : ∀ p ∈ l, p.2 ≠ [] → p.1.start < p.1.stop ∧ p.1.start < frameCount) :
    (decodeIntervals frameCount l d).2.Synced := by
  induction l generalizing d with
  | nil => exact hd
  | cons p l ih =>
    obtain ⟨interval, frames⟩ := p
    have hrest := fun p hp => h p (List.mem_cons_of_mem _ hp)
    rw [decodeIntervals]
    split
    next => exact ih hd hrest
    next hne =>
      obtain ⟨hlt, hcount⟩ := h _ List.mem_cons_self hne
      exact ih (decodeInterval_synced hd hlt hcount hne) hrest

/-! ### What the decoder gives out -/

/-- The frames up to one that is not after the one before. -/
def climb : List ℕ → List ℕ
  | [] => []
  | [frame] => [frame]
  | frame :: frame' :: frames =>
    if frame < frame' then frame :: climb (frame' :: frames) else [frame]

theorem climb_isPrefix : ∀ frames : List ℕ, climb frames <+: frames
  | [] => List.prefix_rfl
  | [_] => List.prefix_rfl
  | frame :: frame' :: frames => by
    rw [climb]
    split
    · exact (List.prefix_cons_inj frame).2 (climb_isPrefix (frame' :: frames))
    · exact (List.prefix_cons_inj frame).2 (List.nil_prefix)

theorem climb_of_pairwise : ∀ {frames : List ℕ}, frames.Pairwise (· < ·) → climb frames = frames
  | [], _ => rfl
  | [_], _ => rfl
  | frame :: frame' :: frames, h => by
    have hcons := List.pairwise_cons.1 h
    rw [climb, if_pos (hcons.1 frame' List.mem_cons_self), climb_of_pairwise hcons.2]

theorem pairwise_of_climb : ∀ {frames : List ℕ}, climb frames = frames → frames.Pairwise (· < ·)
  | [], _ => .nil
  | [_], _ => List.pairwise_singleton _ _
  | frame :: frame' :: frames, h => by
    rw [climb] at h
    split at h
    next hlt =>
      have hrest := pairwise_of_climb (List.cons.inj h).2
      refine List.pairwise_cons.2 ⟨fun f hf => ?_, hrest⟩
      rcases List.mem_cons.1 hf with rfl | hf
      · exact hlt
      · exact hlt.trans ((List.pairwise_cons.1 hrest).1 f hf)
    next => simp at h

/-- A frame that the loop is past is waited for in vain. -/
theorem decodeLoop_past (h : frame < idx) :
    (decodeLoop stop remaining idx (frame :: frames) d).1 = [] := by
  induction remaining generalizing idx d with
  | zero => rw [decodeLoop]
  | succ remaining ih =>
    rw [decodeLoop]
    split
    · dsimp only
      rw [if_neg (by omega)]
      exact ih (by omega)
    · rfl

/-- The loop finds the frames in their order as far as they climb. -/
theorem decodeLoop_eq (hposition : d.position = idx) (hidx : idx ≤ frame)
    (hin : ∀ f ∈ frame :: frames, f < stop ∧ f < frameCount) :
    (decodeLoop stop (frameCount - idx) idx (frame :: frames) d).1 = climb (frame :: frames) := by
  obtain ⟨remaining, hremaining⟩ : ∃ n, frameCount - idx = n := ⟨_, rfl⟩
  rw [hremaining]
  have hframe := hin frame List.mem_cons_self
  induction remaining generalizing idx frame frames d with
  | zero => omega
  | succ remaining ih =>
    rw [decodeLoop, if_pos (by omega)]
    dsimp only
    by_cases heq : idx = frame
    · rw [if_pos heq]
      cases frames with
      | nil => rw [if_pos rfl, climb, hposition, heq]
      | cons frame' frames =>
        have hrest := fun f hf => hin f (List.mem_cons_of_mem _ hf)
        rw [if_neg (by simp), climb]
        dsimp only
        by_cases hlt : frame < frame'
        · rw [if_pos hlt, ih (by dsimp only; omega) (by omega) hrest (by omega)
            (hrest frame' List.mem_cons_self), hposition, heq]
        · rw [if_neg hlt, decodeLoop_past (by omega), hposition, heq]
    · rw [if_neg heq]
      exact ih (by dsimp only; omega) (by omega) hin (by omega) hframe

theorem decodeInterval_eq {interval : FrameInterval} (hd : d.Synced) (hframes : frames ≠ [])
    (hhead : ∀ frame ∈ frames.head?, interval.start ≤ frame)
    (hin : ∀ f ∈ frames, f < interval.stop ∧ f < frameCount) :
    (decodeInterval frameCount interval frames d).1 = climb frames := by
  obtain ⟨frame, frames, rfl⟩ := List.exists_cons_of_ne_nil hframes
  have hstart : interval.start ≤ frame := hhead frame rfl
  rw [decodeInterval]
  dsimp only
  split
  next h =>
    have hposition : (d.position : ℤ) = d.lastConsumedFrame + 1 :=
      hd.resolve_left fun hnew => by omega
    have hidx : (d.lastConsumedFrame + 1).toNat = d.position := by omega
    rw [hidx]
    exact decodeLoop_eq rfl (by rw [List.headD_cons] at h; omega) hin
  next => exact decodeLoop_eq rfl hstart hin

theorem decodeIntervals_eq (frameCount : ℕ) {l : List (FrameInterval × List ℕ)} (hd : d.Synced)
    (hhead : ∀ p ∈ l, ∀ frame ∈ p.2.head?, p.1.start ≤ frame)
    (hin : ∀ p ∈ l, ∀ f ∈ p.2, f < p.1.stop ∧ f < frameCount) :
    (decodeIntervals frameCount l d).1 = (l.map fun p => climb p.2).flatten := by
  induction l generalizing d with
  | nil => rfl
  | cons p l ih =>
    obtain ⟨interval, frames⟩ := p
    have hheadRest := fun p hp => hhead p (List.mem_cons_of_mem _ hp)
    have hinRest := fun p hp => hin p (List.mem_cons_of_mem _ hp)
    rw [decodeIntervals, List.map_cons, List.flatten_cons]
    split
    next hnil =>
      subst hnil
      exact ih hd hheadRest hinRest
    next hne =>
      have hheadFirst := hhead _ List.mem_cons_self
      have hinFirst := hin _ List.mem_cons_self
      obtain ⟨frame, rest, rfl⟩ := List.exists_cons_of_ne_nil hne
      have hstart : interval.start ≤ frame := hheadFirst frame rfl
      have hframe := hinFirst frame List.mem_cons_self
      dsimp only at hframe ⊢
      rw [decodeInterval_eq hd hne hheadFirst hinFirst,
        ih (decodeInterval_synced hd (by omega) (by omega) hne) hheadRest hinRest]

/-! ### Ascending queries -/

/-- If every interval's frames climb, so do all, since the intervals do. -/
theorem pairwise_of_intervals (hchain : Chain key intervals)
    (hhead : ∀ frame ∈ frames.head?, key ≤ frame)
    (h : ∀ p ∈ populateIntervalMap intervals frames, p.2.Pairwise (· < ·)) :
    ((populateIntervalMap intervals frames).map Prod.snd).flatten.Pairwise (· < ·) ∧
      ∀ frame ∈ ((populateIntervalMap intervals frames).map Prod.snd).flatten, key ≤ frame := by
  induction hchain generalizing frames with
  | nil => simp [populateIntervalMap]
  | @cons key stop intervals hle hrest ih =>
    obtain ⟨hpairwise, hge⟩ := ih (head_dropWhile frames)
      fun p hp => h p (List.mem_cons_of_mem _ hp)
    have hfirst : (frames.takeWhile (· < stop)).Pairwise (· < ·) := h _ List.mem_cons_self
    have hlt : ∀ frame ∈ frames.takeWhile (· < stop), frame < stop := by
      intro frame hframe
      simpa using List.mem_takeWhile_imp hframe
    have hkey : ∀ frame ∈ frames.takeWhile (· < stop), key ≤ frame := by
      cases frames with
      | nil => simp
      | cons first frames =>
        have hle' : key ≤ first := hhead first rfl
        rw [List.takeWhile_cons] at hfirst ⊢
        split
        next hcond =>
          rw [if_pos hcond] at hfirst
          intro frame hframe
          rcases List.mem_cons.1 hframe with rfl | hframe
          · exact hle'
          · exact hle'.trans ((List.pairwise_cons.1 hfirst).1 frame hframe).le
        next => simp
    rw [populateIntervalMap, List.map_cons, List.flatten_cons]
    refine ⟨List.pairwise_append.2 ⟨hfirst, hpairwise, fun f hf g hg => ?_⟩, fun f hf => ?_⟩
    · exact (hlt f hf).trans_le (hge g hg)
    · rcases List.mem_append.1 hf with hf | hf
      · exact hkey f hf
      · exact hle.trans (hge f hf)

/-- The frames of the intervals climb if all do. -/
theorem intervals_of_pairwise (intervals : List FrameInterval) (h : frames.Pairwise (· < ·)) :
    ∀ p ∈ populateIntervalMap intervals frames, p.2.Pairwise (· < ·) := by
  induction intervals generalizing frames with
  | nil => simp [populateIntervalMap]
  | cons interval intervals ih =>
    intro p hp
    rcases List.mem_cons.1 hp with rfl | hp
    · exact h.sublist (List.takeWhile_sublist _)
    · exact ih (h.sublist (List.dropWhile_sublist _)) p hp

/-- In an ascending list the frames before the end of an interval come first. -/
theorem mem_takeWhile_iff (stop : ℕ) (h : frames.Pairwise (· < ·)) :
    frame ∈ frames.takeWhile (· < stop) ↔ frame ∈ frames ∧ frame < stop := by
  constructor
  · intro hframe
    exact ⟨(List.takeWhile_sublist _).subset hframe, by simpa using List.mem_takeWhile_imp hframe⟩
  · rintro ⟨hframe, hlt⟩
    induction h with
    | nil => simp at hframe
    | @cons first frames hfirst _ ih =>
      have hhead : first < stop := by
        rcases List.mem_cons.1 hframe with rfl | hframe
        · exact hlt
        · exact (hfirst frame hframe).trans hlt
      rw [List.takeWhile_cons, if_pos (by simpa using hhead)]
      rcases List.mem_cons.1 hframe with rfl | hframe
      · exact List.mem_cons_self
      · exact List.mem_cons_of_mem _ (ih hframe)

/-- The frames of an ascending query are with the intervals that contain them. -/
theorem assigned_of_pairwise (hchain : Chain key intervals) (h : frames.Pairwise (· < ·))
    (hkey : ∀ frame ∈ frames, key ≤ frame) :
    ∀ p ∈ populateIntervalMap intervals frames, ∀ frame ∈ frames,
      frame ∈ p.2 ↔ p.1.start ≤ frame ∧ frame < p.1.stop := by
  induction hchain generalizing frames with
  | nil => simp [populateIntervalMap]
  | @cons key stop intervals hle hrest ih =>
    intro p hp frame hframe
    rcases List.mem_cons.1 hp with rfl | hp
    · rw [mem_takeWhile_iff _ h]
      exact ⟨fun hin => ⟨hkey frame hin.1, hin.2⟩, fun hin => ⟨hframe, hin.2⟩⟩
    · have hdrop : (frames.dropWhile (· < stop)).Pairwise (· < ·) :=
        h.sublist (List.dropWhile_sublist _)
      have hge : ∀ f ∈ frames.dropWhile (· < stop), stop ≤ f := by
        intro f hf
        by_contra hlt
        have hboth := (mem_takeWhile_iff stop h).2
          ⟨(List.dropWhile_sublist _).subset hf, Nat.not_le.1 hlt⟩
        have hnodup : (frames.takeWhile (· < stop) ++ frames.dropWhile (· < stop)).Nodup := by
          rw [List.takeWhile_append_dropWhile]
          exact h.imp fun hlt => hlt.ne
        exact List.disjoint_of_nodup_append hnodup hboth hf
      by_cases hin : frame ∈ frames.dropWhile (· < stop)
      · exact ih hdrop hge p hp frame hin
      · have hsub := (frames_of_chain _ hrest (head_dropWhile frames) p hp).2.2
        have hlt : frame < stop := by
          rw [← List.takeWhile_append_dropWhile (p := (· < stop)) (l := frames)] at hframe
          exact ((mem_takeWhile_iff _ h).1 ((List.mem_append.1 hframe).resolve_right hin)).2
        have hstart := hrest.le_start p.1 (fst_mem hp)
        exact iff_of_false (fun hmem => hin (hsub hmem)) fun hboth => by omega

/-- Parts of parts that have as many elements in all are the whole parts. -/
theorem climb_all {l : List (FrameInterval × List ℕ)}
    (h : (l.map fun p => climb p.2).flatten.length = (l.map Prod.snd).flatten.length) :
    ∀ p ∈ l, climb p.2 = p.2 := by
  have hle : ∀ l : List (FrameInterval × List ℕ),
      (l.map fun p => climb p.2).flatten.length ≤ (l.map Prod.snd).flatten.length := by
    intro l
    induction l with
    | nil => simp
    | cons p l ih =>
      have := (climb_isPrefix p.2).length_le
      simp only [List.map_cons, List.flatten_cons, List.length_append]
      omega
  induction l with
  | nil => simp
  | cons p l ih =>
    have hfirst := (climb_isPrefix p.2).length_le
    have hrest := hle l
    simp only [List.map_cons, List.flatten_cons, List.length_append] at h
    intro q hq
    rcases List.mem_cons.1 hq with rfl | hq
    · exact (climb_isPrefix q.2).eq_of_length (by omega)
    · exact ih (by omega) q hq

end Intervals

/-! ### Both ways -/

section Main

variable {Picture : Type} {v : VideoStream Picture} {keys frameList : List ℕ} {d : Decoder}
  {history : List (List ℕ)}

/-- A list of key frames: in order, starting at frame 0, and of frames of the video. -/
structure IsKeyFrameList (v : VideoStream Picture) (keys : List ℕ) : Prop where
  first : keys.head? = some 0
  sorted : keys.Pairwise (· ≤ ·)
  frames : ∀ key ∈ keys, key < v.frameCount

theorem IsKeyFrameList.chain (h : IsKeyFrameList v keys) : Chain 0 (populateIntervals keys) := by
  obtain ⟨rest, rfl⟩ : ∃ rest, keys = 0 :: rest := by
    cases keys with
    | nil => cases h.first
    | cons key rest => exact ⟨rest, by rw [Option.some.inj h.first]⟩
  exact chain_populateIntervals h.sorted fun key hkey =>
    (h.frames key hkey).le.trans v.frameCount_le

/-- The decoder knows where it is after any queries. -/
theorem getFrames_synced (h : IsKeyFrameList v keys) (hd : d.Synced) :
    (getFrames v keys frameList d).2.Synced := by
  have hframes := frames_of_chain frameList h.chain fun _ _ => Nat.zero_le _
  have hsynced := decodeIntervals_synced v.frameCount
    (l := populateIntervalMap (populateIntervals keys) frameList) hd fun p hp hne => by
      obtain ⟨hhead, hlt, -⟩ := hframes p hp
      obtain ⟨frame, rest, heq⟩ := List.exists_cons_of_ne_nil hne
      have hstart : p.1.start ≤ frame := hhead frame (by rw [heq]; rfl)
      have hstop := hlt frame (by rw [heq]; exact List.mem_cons_self)
      exact ⟨by omega, h.frames _ (start_mem p.1 (fst_mem hp))⟩
  by_cases hnil : frameList = []
  · rw [getFrames, if_pos hnil]
    exact hd
  · rw [getFrames, if_neg hnil, decode, if_neg hnil]
    dsimp only
    split <;> exact hsynced

theorem after_synced (h : IsKeyFrameList v keys) (history : List (List ℕ)) :
    (after v keys history).Synced := by
  have key : ∀ (history : List (List ℕ)) (d : Decoder), d.Synced →
      (history.foldl (fun d frameList => (getFrames v keys frameList d).2) d).Synced := by
    intro history
    induction history with
    | nil => exact fun d hd => hd
    | cons frameList history ih => exact fun d hd => ih _ (getFrames_synced h hd)
  exact key history .new (.inl rfl)

/-- The plain decoding of frames of the video. -/
theorem getFramesPlain_eq (hin : ∀ frame ∈ frameList, frame < v.frameCount) :
    getFramesPlain v frameList = .ok (frameList.map v.picture) := by
  induction frameList with
  | nil => rfl
  | cons frame frameList ih =>
    have hrest := ih fun f hf => hin f (List.mem_cons_of_mem _ hf)
    rw [getFramesPlain] at hrest ⊢
    rw [List.mapM_cons, if_neg (Nat.not_le.2 (hin frame List.mem_cons_self)), hrest]
    rfl

/-- What the decoder gives out for a query. -/
theorem getFrames_eq (h : IsKeyFrameList v keys) (hd : d.Synced)
    (hin : ∀ frame ∈ frameList, frame < v.frameCount) (hne : frameList ≠ []) :
    (getFrames v keys frameList d).1 =
      let out := ((populateIntervalMap (populateIntervals keys) frameList).map
        fun p => climb p.2).flatten
      if out = [] then .error "encode_frames" else .ok (out.map v.picture) := by
  have hframes := frames_of_chain frameList h.chain fun _ _ => Nat.zero_le _
  have hout := decodeIntervals_eq v.frameCount
    (l := populateIntervalMap (populateIntervals keys) frameList) hd
    (fun p hp => (hframes p hp).1)
    fun p hp f hf => ⟨(hframes p hp).2.1 f hf, hin f ((hframes p hp).2.2 hf)⟩
  dsimp only
  rw [getFrames, if_neg hne, decode, if_neg hne, ← hout]
  dsimp only
  split <;> rfl

/-- **Decoding with key frames** gives the frames of the plain decoding, in the same order and
number, exactly if the query is in strictly ascending order. -/
theorem decode_agrees_iff (h : IsKeyFrameList v keys)
    (hin : ∀ frame ∈ frameList, frame < v.frameCount) :
    Agrees v keys frameList (after v keys history) ↔ frameList.Pairwise (· < ·) := by
  have hd := after_synced h history
  generalize after v keys history = d at hd
  have hkeys : keys ≠ [] := by
    rintro rfl
    cases h.first
  have hflatten := flatten_frames frameList hkeys fun frame hframe =>
    (hin frame hframe).trans_le v.frameCount_le
  by_cases hnil : frameList = []
  · subst hnil
    exact iff_of_true ⟨rfl, fun p _ frame hframe => by simp at hframe⟩ .nil
  have hout := getFrames_eq h hd hin hnil
  have hplain := getFramesPlain_eq (v := v) hin
  constructor
  · rintro ⟨hframes, -⟩
    rw [hout, hplain] at hframes
    dsimp only at hframes
    split at hframes
    · cases hframes
    · have hlength := congrArg List.length (Except.ok.inj hframes)
      rw [List.length_map, List.length_map] at hlength
      have hclimb := climb_all (hlength.trans (congrArg List.length hflatten).symm)
      have hpairwise := (pairwise_of_intervals h.chain (fun _ _ => Nat.zero_le _)
        fun p hp => pairwise_of_climb (hclimb p hp)).1
      rwa [hflatten] at hpairwise
  · intro hpairwise
    have hparts := intervals_of_pairwise (populateIntervals keys) hpairwise
    have hclimb : ((populateIntervalMap (populateIntervals keys) frameList).map
        fun p => climb p.2) = (populateIntervalMap (populateIntervals keys) frameList).map
          Prod.snd :=
      List.map_congr_left fun p hp => climb_of_pairwise (hparts p hp)
    refine ⟨?_, assigned_of_pairwise h.chain hpairwise fun _ _ => Nat.zero_le _⟩
    rw [hout, hplain, hclimb, hflatten]
    exact if_neg hnil

end Main

/-- A video of ten frames, each its own picture, with key frames at 0 and 5. -/
def tenFrames : VideoStream ℕ where
  picture := id
  frameCount := 10
  frameCount_le := by decide

theorem tenFrames_keys : IsKeyFrameList tenFrames [0, 5] := ⟨rfl, by decide, by decide⟩

theorem decode_agrees_ascending :
    Agrees tenFrames [0, 5] [1, 3, 7] (after tenFrames [0, 5] [[2], [8]]) :=
  (decode_agrees_iff tenFrames_keys (by decide)).2 (by decide)

/-- Frame 1 after frame 7 is given to the second interval, and not found in it; a frame that is
asked for twice is given out once. -/
theorem descending_lost :
    (getFrames tenFrames [0, 5] [7, 1] .new).1 = .ok [7] ∧
      getFramesPlain tenFrames [7, 1] = .ok [7, 1] ∧
      populateIntervalMap (populateIntervals [0, 5]) [7, 1] =
        [(⟨0, 5⟩, []), (⟨5, maxUnsigned⟩, [7, 1])] ∧
      (getFrames tenFrames [0, 5] [3, 3] .new).1 = .ok [3] ∧
      ¬ Agrees tenFrames [0, 5] [7, 1] .new := by
  have hlost : (getFrames tenFrames [0, 5] [7, 1] .new).1 = .ok [7] := by rfl
  refine ⟨hlost, rfl, by decide, by rfl, fun h => ?_⟩
  have hframes := h.frames
  rw [hlost] at hframes
  exact absurd (Except.ok.inj hframes) (by decide)

end KeyFrames

end VCL

end Vdms
