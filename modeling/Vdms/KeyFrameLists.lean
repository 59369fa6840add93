import Mathlib.Data.List.Sort
import Vdms.KeyFrames

/-!
# The List of Key Frames

A `Video` keeps the list of its key frames, and a decoder with the intervals between them. The
intervals are set whenever the list is asked for, but the decoder takes them only once.

## Main results

* `get_of_populated`: the list cannot be asked for once there are intervals.
* `get_again_iff`: the histories in which each answer is the list.
-/

namespace Vdms

namespace VCL

namespace KeyFrameLists

open KeyFrames (VideoStream Decoder getFrames getFramesPlain)

/-- `KeyFrame`. -/
structure KeyFrame where
  idx : UInt32
  base : Int64
deriving DecidableEq

/-- A file: its frames, and what is made of it when it is opened. -/
structure VideoFile (Picture : Type) where
  stream : VideoStream Picture
  /-- `KeyFrameDecoder(filename)` does not throw. -/
  opens : Bool
  /-- `KeyFrameParser(filename).parse()`. -/
  parse : Except String (List KeyFrame)

/-- `KeyFrameDecoder`. `_interval_map` is given by the key frames from which it was made, in order.
-/
structure KeyFrameDecoder where
  keys : List ℕ := []
  decoder : Decoder := .new

/-- `Video`, as far as its key frames go. -/
structure VideoKeys where
  keyFrameList : List KeyFrame := []
  keyFrameDecoder : Option KeyFrameDecoder := none

/-- `KeyFrameDecoder::populate_intervals`: the decoder with intervals; none for -1. -/
def populateIntervals (dec : KeyFrameDecoder) (keyFrames : List KeyFrame) :
    Option KeyFrameDecoder :=
  if keyFrames = [] then none
  else if dec.keys ≠ [] then none
  else
    let sortedFrameList := (keyFrames.map fun k => k.idx.toNat).mergeSort (· ≤ ·)
    if sortedFrameList.head? ≠ some 0 then none
    else some { dec with keys := sortedFrameList }

inductive Call where
  | getKeyFrameList
  | setKeyFrameList (keyFrames : List KeyFrame)
  | getFrames (frameList : List ℕ)
deriving DecidableEq

inductive Answer (Picture : Type) where
  | keyFrames (result : Except String (List KeyFrame))
  | done (result : Except String Unit)
  | frames (result : Except String (List Picture))

section

variable {Picture : Type} (file : VideoFile Picture)

/-- `Video::set_key_frame_list`. -/
def setKeyFrameList (video : VideoKeys) (keyFrames : List KeyFrame) :
    Except String Unit × VideoKeys :=
  match video.keyFrameDecoder.or (if file.opens then some {} else none) with
  | none => (.error "KeyFrameDecoder", video)
  | some dec =>
      match populateIntervals dec keyFrames with
      | some dec => (.ok (), { video with keyFrameDecoder := some dec })
      | none => (.error "populate_intervals", { video with keyFrameDecoder := some dec })

/-- `Video::get_key_frame_list`. -/
def getKeyFrameList (video : VideoKeys) : Except String (List KeyFrame) × VideoKeys :=
  let parsed : Except String VideoKeys :=
    if video.keyFrameList = [] then
      file.parse.map fun keyFrames => { video with keyFrameList := keyFrames }
    else .ok video
  match parsed with
  | .error e => (.error e, video)
  | .ok video =>
      let (result, video) := setKeyFrameList file video video.keyFrameList
      (result.map fun _ => video.keyFrameList, video)

/-- `Video::get_frames`. -/
def decodeFrames (video : VideoKeys) (frameList : List ℕ) :
    Except String (List Picture) × VideoKeys :=
  match video.keyFrameDecoder with
  | none => (getFramesPlain file.stream frameList, video)
  | some dec =>
      if frameList = [] then (.ok [], video)
      else if dec.keys = [] then (.error "set_key_frames() is not invoked", video)
      else
        let (result, decoder) := getFrames file.stream dec.keys frameList dec.decoder
        (result, { video with keyFrameDecoder := some { dec with decoder := decoder } })

def step (video : VideoKeys) : Call → Answer Picture × VideoKeys
  | .getKeyFrameList =>
      let (result, video) := getKeyFrameList file video
      (.keyFrames result, video)
  | .setKeyFrameList keyFrames =>
      let (result, video) := setKeyFrameList file video keyFrames
      (.done result, video)
  | .getFrames frameList =>
      let (result, video) := decodeFrames file video frameList
      (.frames result, video)

/-- The state after some calls. -/
def stateAfter (video : VideoKeys) (calls : List Call) : VideoKeys :=
  calls.foldl (fun video call => (step file video call).2) video

/-- What a call for the list, after these calls on a new object, answers. -/
def listAfter (before : List Call) : Except String (List KeyFrame) :=
  (getKeyFrameList file (stateAfter file {} before)).1

/-- Each call for the list succeeds, and answers what the last one did if the list was not replaced
in between. -/
def Idempotent (calls : List Call) : Prop :=
  (∀ before after, calls = before ++ .getKeyFrameList :: after →
    ∃ keyFrames, listAfter file before = .ok keyFrames) ∧
  ∀ before between after,
    calls = before ++ .getKeyFrameList :: (between ++ .getKeyFrameList :: after) →
    (∀ keyFrames, .setKeyFrameList keyFrames ∉ between) →
    listAfter file (before ++ .getKeyFrameList :: between) = listAfter file before

/-- The first frame is a key frame. -/
def ValidList (keyFrames : List KeyFrame) : Prop := ∃ k ∈ keyFrames, k.idx = 0

/-- The list of the file can be asked for once: before any other list that is valid is set. -/
def AskedOnce (calls : List Call) : Prop :=
  ∀ before after, calls = before ++ .getKeyFrameList :: after →
    (file.opens = true ∧ ∃ keyFrames, file.parse = .ok keyFrames ∧ ValidList keyFrames) ∧
    .getKeyFrameList ∉ before ∧
    ∀ keyFrames, ValidList keyFrames → .setKeyFrameList keyFrames ∉ before

end

variable {Picture : Type} {file : VideoFile Picture} {video : VideoKeys}
  {keyFrames : List KeyFrame}

/-! ### `populate_intervals` -/

theorem sorted_ne_nil (h : ValidList keyFrames) :
    (keyFrames.map fun k => k.idx.toNat).mergeSort (· ≤ ·) ≠ [] := by
  obtain ⟨k, hk, -⟩ := h
  intro hnil
  have hlength := congrArg List.length hnil
  rw [List.length_mergeSort, List.length_map] at hlength
  exact List.ne_nil_of_mem hk (List.length_eq_zero_iff.1 hlength)

/-- The least number is that of the first frame if the first frame is there. -/
theorem head_sorted_iff : ((keyFrames.map fun k => k.idx.toNat).mergeSort (· ≤ ·)).head? = some 0 ↔
    ValidList keyFrames := by
  have hperm := List.mergeSort_perm (keyFrames.map fun k => k.idx.toNat) (· ≤ ·)
  have hsorted := @List.pairwise_mergeSort ℕ (fun a b => decide (a ≤ b))
    (fun a b c hab hbc => by simp only [decide_eq_true_eq] at *; omega)
    (fun a b => by simp only [Bool.or_eq_true, decide_eq_true_eq]; omega)
    (keyFrames.map fun k => k.idx.toNat)
  constructor
  · intro hhead
    obtain ⟨k, hk, hzero⟩ := List.mem_map.1 (hperm.mem_iff.1 (List.mem_of_mem_head? hhead))
    exact ⟨k, hk, UInt32.toNat_inj.1 hzero⟩
  · intro hvalid
    obtain ⟨first, rest, hcons⟩ := List.exists_cons_of_ne_nil (sorted_ne_nil hvalid)
    obtain ⟨k, hk, hzero⟩ := hvalid
    have hmem : 0 ∈ (keyFrames.map fun k => k.idx.toNat).mergeSort (· ≤ ·) :=
      hperm.mem_iff.2 (List.mem_map.2 ⟨k, hk, by rw [hzero]; rfl⟩)
    rw [hcons] at hmem hsorted ⊢
    obtain rfl | hmem := List.mem_cons.1 hmem
    · rfl
    · have hle := (List.pairwise_cons.1 hsorted).1 0 hmem
      simp only [decide_eq_true_eq] at hle
      rw [List.head?_cons, Nat.le_zero.1 hle]

/-- A decoder without intervals takes a valid list. -/
theorem populateIntervals_valid {dec : KeyFrameDecoder} (hkeys : dec.keys = [])
    (h : ValidList keyFrames) :
    ∃ dec', populateIntervals dec keyFrames = some dec' ∧ dec'.keys ≠ [] := by
  obtain ⟨k, hk, -⟩ := id h
  rw [populateIntervals, if_neg (List.ne_nil_of_mem hk), if_neg (not_not.2 hkeys)]
  dsimp only
  rw [if_neg (not_not.2 (head_sorted_iff.2 h))]
  exact ⟨_, rfl, sorted_ne_nil h⟩

theorem populateIntervals_inv {dec dec' : KeyFrameDecoder}
    (h : populateIntervals dec keyFrames = some dec') :
    dec.keys = [] ∧ ValidList keyFrames ∧ dec'.keys ≠ [] := by
  rw [populateIntervals] at h
  split at h
  · cases h
  · split at h
    · cases h
    · rename_i hkeys
      dsimp only at h
      split at h
      · cases h
      · rename_i hhead
        have hvalid := head_sorted_iff.1 (not_not.1 hhead)
        cases h
        exact ⟨not_not.1 hkeys, hvalid, sorted_ne_nil hvalid⟩

/-! ### The states of a video -/

/-- There are intervals. -/
def VideoKeys.Populated (video : VideoKeys) : Prop :=
  ∃ dec, video.keyFrameDecoder = some dec ∧ dec.keys ≠ []

/-- There are none, and no list either. -/
structure VideoKeys.Fresh (file : VideoFile Picture) (video : VideoKeys) : Prop where
  keyFrameList : video.keyFrameList = []
  keyFrameDecoder : video.keyFrameDecoder = none ∨
    file.opens = true ∧ ∃ dec, video.keyFrameDecoder = some dec ∧ dec.keys = []

theorem set_of_populated (h : video.Populated) (keyFrames : List KeyFrame) :
    setKeyFrameList file video keyFrames = (.error "populate_intervals", video) := by
  obtain ⟨dec, hdec, hkeys⟩ := h
  have hnone : populateIntervals dec keyFrames = none := by
    cases hpopulate : populateIntervals dec keyFrames with
    | none => rfl
    | some dec' => exact absurd (populateIntervals_inv hpopulate).1 hkeys
  rw [setKeyFrameList, hdec]
  simp only [Option.some_or, hnone]
  rw [← hdec]

theorem set_ok_populated (h : (setKeyFrameList file video keyFrames).1 = .ok ()) :
    ValidList keyFrames ∧ (setKeyFrameList file video keyFrames).2.Populated ∧
      (setKeyFrameList file video keyFrames).2.keyFrameList = video.keyFrameList := by
  rw [setKeyFrameList] at h ⊢
  cases hdec : video.keyFrameDecoder.or (if file.opens then some {} else none) with
  | none =>
      rw [hdec] at h
      cases h
  | some dec =>
      simp only [hdec] at h ⊢
      cases hpopulate : populateIntervals dec keyFrames with
      | none =>
          simp only [hpopulate] at h
          cases h
      | some dec' =>
          obtain ⟨-, hvalid, hkeys⟩ := populateIntervals_inv hpopulate
          exact ⟨hvalid, ⟨dec', rfl, hkeys⟩, rfl⟩

/-- A valid list leaves intervals, unless the file cannot be opened. -/
theorem set_valid (hopens : file.opens = true) (h : ValidList keyFrames) :
    (setKeyFrameList file video keyFrames).2.Populated := by
  by_cases hpopulated : video.Populated
  · rw [set_of_populated hpopulated]
    exact hpopulated
  · obtain ⟨dec, hdec, hkeys⟩ : ∃ dec,
        video.keyFrameDecoder.or (if file.opens then some {} else none) = some dec ∧
          dec.keys = [] := by
      cases hvideo : video.keyFrameDecoder with
      | none => exact ⟨{}, by rw [if_pos hopens]; rfl, rfl⟩
      | some dec => exact ⟨dec, rfl, by_contra fun hne => hpopulated ⟨dec, hvideo, hne⟩⟩
    obtain ⟨dec', hpopulate, hkeys'⟩ := populateIntervals_valid hkeys h
    rw [setKeyFrameList, hdec]
    simp only [hpopulate]
    exact ⟨dec', rfl, hkeys'⟩

/-- Another list is refused by a decoder without intervals. -/
theorem set_invalid (hfresh : video.Fresh file) (h : file.opens = true → ¬ ValidList keyFrames) :
    (setKeyFrameList file video keyFrames).2.Fresh file := by
  have hnone : file.opens = true → ∀ dec, populateIntervals dec keyFrames = none := by
    intro hopens dec
    cases hpopulate : populateIntervals dec keyFrames with
    | none => rfl
    | some dec' => exact absurd (populateIntervals_inv hpopulate).2.1 (h hopens)
  rw [setKeyFrameList]
  obtain ⟨hlist, hvideo | ⟨hopens, dec, hvideo, hkeys⟩⟩ := hfresh
  · rw [hvideo, Option.none_or]
    cases hopens : file.opens with
    | false => exact ⟨hlist, .inl hvideo⟩
    | true =>
        rw [if_pos rfl]
        simp only [hnone hopens]
        exact ⟨hlist, .inr ⟨hopens, {}, rfl, rfl⟩⟩
  · rw [hvideo, Option.some_or]
    simp only [hnone hopens]
    exact ⟨hlist, .inr ⟨hopens, dec, rfl, hkeys⟩⟩

/-- Without intervals a valid list is taken if the file can be opened. -/
theorem set_ok_iff (h : video.keyFrameDecoder = none ∨
    file.opens = true ∧ ∃ dec, video.keyFrameDecoder = some dec ∧ dec.keys = []) :
    (setKeyFrameList file video keyFrames).1 = .ok () ↔
      file.opens = true ∧ ValidList keyFrames := by
  constructor
  · intro hok
    refine ⟨?_, (set_ok_populated hok).1⟩
    obtain hvideo | ⟨hopens, -⟩ := h
    · by_contra hopens
      rw [setKeyFrameList, hvideo, Option.none_or, if_neg hopens] at hok
      cases hok
    · exact hopens
  · rintro ⟨hopens, hvalid⟩
    obtain ⟨dec, hdec, hkeys⟩ : ∃ dec,
        video.keyFrameDecoder.or (if file.opens then some {} else none) = some dec ∧
          dec.keys = [] := by
      obtain hvideo | ⟨-, dec, hvideo, hkeys⟩ := h
      · exact ⟨{}, by rw [hvideo, if_pos hopens]; rfl, rfl⟩
      · exact ⟨dec, by rw [hvideo]; rfl, hkeys⟩
    obtain ⟨dec', hpopulate, -⟩ := populateIntervals_valid hkeys hvalid
    rw [setKeyFrameList, hdec]
    simp only [hpopulate]

/-! ### `get_key_frame_list` -/

/-- The list is parsed if there is none, and set in any case. -/
theorem get_cases (file : VideoFile Picture) (video : VideoKeys) :
    (∃ e, video.keyFrameList = [] ∧ file.parse = .error e ∧
      getKeyFrameList file video = (.error e, video)) ∨
    ∃ keyFrames, (video.keyFrameList = [] → file.parse = .ok keyFrames) ∧
      getKeyFrameList file video =
        ((setKeyFrameList file { video with keyFrameList := keyFrames } keyFrames).1.map fun _ =>
          (setKeyFrameList file { video with keyFrameList := keyFrames } keyFrames).2.keyFrameList,
        (setKeyFrameList file { video with keyFrameList := keyFrames } keyFrames).2) := by
  rw [getKeyFrameList]
  by_cases hlist : video.keyFrameList = []
  · cases hparse : file.parse with
    | error e => exact .inl ⟨e, hlist, rfl, by rw [if_pos hlist]; rfl⟩
    | ok keyFrames => exact .inr ⟨keyFrames, fun _ => rfl, by rw [if_pos hlist]; rfl⟩
  · exact .inr ⟨video.keyFrameList, fun h => absurd h hlist, by rw [if_neg hlist]⟩

/-- The list cannot be asked for once there are intervals. -/
theorem get_of_populated (h : video.Populated) :
    (∀ keyFrames, (getKeyFrameList file video).1 ≠ .ok keyFrames) ∧
      (getKeyFrameList file video).2.Populated := by
  obtain ⟨e, -, -, hget⟩ | ⟨keyFrames, -, hget⟩ := get_cases file video
  · rw [hget]
    exact ⟨fun _ hok => (by cases hok), h⟩
  · have hkept : VideoKeys.Populated { video with keyFrameList := keyFrames } := h
    rw [hget, set_of_populated hkept]
    exact ⟨fun _ hok => (by cases hok), hkept⟩

/-- A call that answers leaves intervals. -/
theorem get_ok_populated (h : (getKeyFrameList file video).1 = .ok keyFrames) :
    (getKeyFrameList file video).2.Populated := by
  obtain ⟨e, -, -, hget⟩ | ⟨keyFrames', -, hget⟩ := get_cases file video
  · rw [hget] at h
    cases h
  · rw [hget] at h ⊢
    cases hset : (setKeyFrameList file { video with keyFrameList := keyFrames' } keyFrames').1 with
    | error e =>
        simp only [hset] at h
        cases h
    | ok done => exact (set_ok_populated hset).2.1

/-- The list is answered the first time if it is valid. -/
theorem get_of_fresh (h : video.Fresh file) :
    (∃ keyFrames, (getKeyFrameList file video).1 = .ok keyFrames) ↔
      file.opens = true ∧ ∃ keyFrames, file.parse = .ok keyFrames ∧ ValidList keyFrames := by
  obtain ⟨e, -, hparse, hget⟩ | ⟨keyFrames, hparse, hget⟩ := get_cases file video
  · rw [hget, hparse]
    refine iff_of_false ?_ ?_
    · rintro ⟨_, hok⟩
      cases hok
    · rintro ⟨-, _, hok, -⟩
      cases hok
  · have hparse := hparse h.keyFrameList
    rw [hget, hparse]
    have hset : ∀ video : VideoKeys, (∃ l, ((setKeyFrameList file video keyFrames).1.map fun _ =>
        (setKeyFrameList file video keyFrames).2.keyFrameList) = .ok l) ↔
          (setKeyFrameList file video keyFrames).1 = .ok () := by
      intro video
      cases (setKeyFrameList file video keyFrames).1 with
      | error e => simp [Except.map]
      | ok done => simp [Except.map]
    have hok := @set_ok_iff Picture file { video with keyFrameList := keyFrames } keyFrames
      h.keyFrameDecoder
    rw [hset, hok]
    refine and_congr_right fun _ => ⟨fun hvalid => ⟨keyFrames, rfl, hvalid⟩, ?_⟩
    rintro ⟨l, hl, hvalid⟩
    cases hl
    exact hvalid

/-! ### Histories -/

/-- Intervals stay. -/
theorem step_populated (h : video.Populated) (call : Call) :
    (step file video call).2.Populated := by
  cases call with
  | getKeyFrameList => exact (get_of_populated h).2
  | setKeyFrameList keyFrames =>
      rw [step, set_of_populated h]
      exact h
  | getFrames frameList =>
      obtain ⟨dec, hdec, hkeys⟩ := id h
      rw [step, decodeFrames, hdec]
      by_cases hframes : frameList = []
      · simp only [if_pos hframes]
        exact h
      · simp only [if_neg hframes, if_neg hkeys]
        exact ⟨_, rfl, hkeys⟩

/-- Without a call for the list, and without a valid one, there are no intervals. -/
theorem step_fresh (h : video.Fresh file) {call : Call} (hget : call ≠ .getKeyFrameList)
    (hset : file.opens = true → ∀ keyFrames, ValidList keyFrames →
      call ≠ .setKeyFrameList keyFrames) :
    (step file video call).2.Fresh file := by
  cases call with
  | getKeyFrameList => exact absurd rfl hget
  | setKeyFrameList keyFrames =>
      exact set_invalid h fun hopens hvalid => hset hopens keyFrames hvalid rfl
  | getFrames frameList =>
      rw [step, decodeFrames]
      obtain ⟨hlist, hvideo | ⟨hopens, dec, hvideo, hkeys⟩⟩ := h
      · rw [hvideo]
        exact ⟨hlist, .inl hvideo⟩
      · rw [hvideo]
        by_cases hframes : frameList = []
        · simp only [if_pos hframes]
          exact ⟨hlist, .inr ⟨hopens, dec, hvideo, hkeys⟩⟩
        · simp only [if_neg hframes, if_pos hkeys]
          exact ⟨hlist, .inr ⟨hopens, dec, hvideo, hkeys⟩⟩

theorem stateAfter_append (before after : List Call) :
    stateAfter file video (before ++ after) =
      stateAfter file (stateAfter file video before) after := List.foldl_append

theorem stateAfter_populated (h : video.Populated) (calls : List Call) :
    (stateAfter file video calls).Populated := by
  induction calls generalizing video with
  | nil => exact h
  | cons call calls ih => exact ih (step_populated h call)

theorem stateAfter_fresh (h : video.Fresh file) {calls : List Call}
    (hget : .getKeyFrameList ∉ calls)
    (hset : file.opens = true → ∀ keyFrames, ValidList keyFrames →
      .setKeyFrameList keyFrames ∉ calls) :
    (stateAfter file video calls).Fresh file := by
  induction calls generalizing video with
  | nil => exact h
  | cons call calls ih =>
      rw [List.mem_cons, not_or] at hget
      obtain ⟨hcall, hcalls⟩ := hget
      refine ih (step_fresh h (Ne.symm hcall) fun hopens keyFrames hvalid heq => ?_) hcalls
        fun hopens keyFrames hvalid hmem =>
          hset hopens keyFrames hvalid (List.mem_cons_of_mem _ hmem)
      exact hset hopens keyFrames hvalid (heq ▸ List.mem_cons_self)

/-- A call that leaves intervals is the last one behind which the list can be asked for. -/
theorem listAfter_of_populated {before between : List Call} {call : Call}
    (h : (step file (stateAfter file {} before) call).2.Populated) (keyFrames : List KeyFrame) :
    listAfter file (before ++ call :: between) ≠ .ok keyFrames := by
  rw [listAfter, stateAfter_append]
  exact (get_of_populated (stateAfter_populated h between)).1 keyFrames

/-- **The list of key frames** is answered whenever it is asked for exactly if the file has a valid
one, and it is asked for once, before a valid list is set. -/
theorem get_again_iff (file : VideoFile Picture) (calls : List Call) :
    Idempotent file calls ↔ AskedOnce file calls := by
  constructor
  · rintro ⟨hok, -⟩ before after rfl
    obtain ⟨keyFrames, hlist⟩ := hok before after rfl
    have hget : .getKeyFrameList ∉ before := by
      intro hmem
      obtain ⟨front, between, rfl⟩ := List.append_of_mem hmem
      obtain ⟨first, hfirst⟩ := hok front (between ++ .getKeyFrameList :: after) (by simp)
      have hpopulated : (step file (stateAfter file {} front) .getKeyFrameList).2.Populated :=
        get_ok_populated hfirst
      exact listAfter_of_populated hpopulated keyFrames hlist
    have hnew : VideoKeys.Fresh file {} := ⟨rfl, .inl rfl⟩
    -- A list that is set before is answered with an exception, unless it is not valid.
    have hset : file.opens = true → ∀ l, ValidList l → .setKeyFrameList l ∉ before := by
      intro hopens l hvalid hmem
      obtain ⟨front, between, rfl⟩ := List.append_of_mem hmem
      have hpopulated : (step file (stateAfter file {} front) (.setKeyFrameList l)).2.Populated :=
        set_valid hopens hvalid
      exact listAfter_of_populated hpopulated keyFrames hlist
    have hfresh := stateAfter_fresh hnew hget hset
    have hfile := (get_of_fresh hfresh).1 ⟨keyFrames, hlist⟩
    exact ⟨hfile, hget, hset hfile.1⟩
  · intro honce
    refine ⟨fun before after heq => ?_, fun before between after heq _ => ?_⟩
    · obtain ⟨hfile, hget, hset⟩ := honce before after heq
      exact (get_of_fresh (stateAfter_fresh ⟨rfl, .inl rfl⟩ hget fun _ => hset)).2 hfile
    · -- There are no two calls for the list.
      have hsecond := honce (before ++ .getKeyFrameList :: between) after (by simp [heq])
      exact absurd (List.mem_append_right _ List.mem_cons_self) hsecond.2.1

/-- A file with one key frame, the first one. -/
def oneKeyFrame : VideoFile ℕ where
  stream := ⟨id, 1, by decide⟩
  opens := true
  parse := .ok [⟨0, 0⟩]

/-- The second call for its list throws. -/
theorem second_call_refused : ¬ Idempotent oneKeyFrame [.getKeyFrameList, .getKeyFrameList] := by
  rintro ⟨hok, -⟩
  obtain ⟨keyFrames, hlist⟩ := hok [.getKeyFrameList] [] rfl
  have hvalid : ValidList [⟨0, 0⟩] := ⟨_, List.mem_cons_self, rfl⟩
  have hpopulated :
      (step oneKeyFrame (stateAfter oneKeyFrame {} []) .getKeyFrameList).2.Populated :=
    @set_valid ℕ oneKeyFrame { keyFrameList := [⟨0, 0⟩] } [⟨0, 0⟩] rfl hvalid
  exact @listAfter_of_populated ℕ oneKeyFrame [] [] _ hpopulated keyFrames hlist

end KeyFrameLists

end VCL

end Vdms
