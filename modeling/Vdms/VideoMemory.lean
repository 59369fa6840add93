import Mathlib.Algebra.Order.Ring.Int
import Vdms.VideoCopies

/-!
# Memory for Videos

Before a video is decoded, `check_sufficient_memory` compares its size with the memory that the
system has left. The size in bytes is computed in 32 bits.

## Main results

* `check_exact_iff`: the videos that are compared with their size.
* `le_bytes_of_accepted`: what is accepted without fitting.
-/

namespace Vdms

namespace VCL

namespace VideoSize

/-- `videoSizeMb` of `check_sufficient_memory`. The bytes of a frame are an `int`, which is unsigned
again where it is multiplied. -/
def videoSizeMb (size : VideoSize) : Int32 :=
  let frameSizeB : Int32 := (size.width * size.height * 3).toInt32
  (frameSizeB.toUInt32 * size.frameCount / (1024 * 1024)).toInt32

/-- The bytes of the video. -/
def bytes (size : VideoSize) : ℕ :=
  size.width.toNat * size.height.toNat * 3 * size.frameCount.toNat

end VideoSize

/-- What `get_system_virtual_memory` reads, in bytes. -/
structure MemoryStats where
  total_virtual_memory : ℤ
  virtual_memory_used : ℤ

namespace MemoryStats

def ttlVirtMemMB (stats : MemoryStats) : ℤ := stats.total_virtual_memory.tdiv (1024 * 1024)

def usedVirtMemMB (stats : MemoryStats) : ℤ := stats.virtual_memory_used.tdiv (1024 * 1024)

def availVirtMemMB (stats : MemoryStats) : ℤ := stats.ttlVirtMemMB - stats.usedVirtMemMB

/-- `SystemStats::query_sufficient_memory`. -/
def query_sufficient_memory (stats : MemoryStats) (size_requested : Int32) : Except String Bool :=
  if stats.ttlVirtMemMB = 0 then .error "Error: ttlVirtMemMB value is zero"
  else .ok (size_requested.toInt < stats.availVirtMemMB)

end MemoryStats

/-- `Video::check_sufficient_memory`. -/
def checkSufficientMemory (stats : MemoryStats) (size : VideoSize) : Except String Bool :=
  stats.query_sufficient_memory size.videoSizeMb

/-- The number that is compared is the size in megabytes, and the answer is that of the comparison.
-/
def CheckExact (stats : MemoryStats) (size : VideoSize) : Prop :=
  size.videoSizeMb.toInt = (size.bytes / 2 ^ 20 : ℕ) ∧
    checkSufficientMemory stats size =
      .ok (((size.bytes / 2 ^ 20 : ℕ) : ℤ) < stats.availVirtMemMB)

theorem toInt_toInt32 {x : UInt32} (h : x.toNat < 2 ^ 31) : x.toInt32.toInt = x.toNat := by
  have hbits : x.toInt32.toBitVec.toNat = x.toNat := rfl
  rw [← hbits]
  exact BitVec.toInt_eq_toNat_of_lt (by omega)

/-- The size in megabytes is that of the bytes modulo 2^32. -/
theorem VideoSize.videoSizeMb_toInt (size : VideoSize) :
    size.videoSizeMb.toInt = (size.bytes % 2 ^ 32 / 2 ^ 20 : ℕ) := by
  have hmb : (1024 * 1024 : UInt32).toNat = 2 ^ 20 := by decide
  have hnat : (size.width * size.height * 3 * size.frameCount / (1024 * 1024)).toNat =
      size.bytes % 2 ^ 32 / 2 ^ 20 := by
    rw [UInt32.toNat_div, hmb]
    simp only [UInt32.toNat_mul, VideoSize.bytes]
    simp [Nat.mod_mul_mod]
  have hlt : size.bytes % 2 ^ 32 / 2 ^ 20 < 2 ^ 31 := by omega
  rw [VideoSize.videoSizeMb, UInt32.toUInt32_toInt32, toInt_toInt32 (by omega), hnat]

theorem checkSufficientMemory_of_ne {stats : MemoryStats} (h : stats.ttlVirtMemMB ≠ 0)
    (size : VideoSize) : checkSufficientMemory stats size =
      .ok (size.videoSizeMb.toInt < stats.availVirtMemMB) := by
  rw [checkSufficientMemory, MemoryStats.query_sufficient_memory, if_neg h]

/-- **The memory check** is exact if and only if the video has less than 2^32 bytes, and the system
has a megabyte at least. -/
theorem check_exact_iff (stats : MemoryStats) (size : VideoSize) :
    CheckExact stats size ↔ size.bytes < 2 ^ 32 ∧ stats.ttlVirtMemMB ≠ 0 := by
  have hsize := size.videoSizeMb_toInt
  constructor
  · rintro ⟨hexact, hanswer⟩
    constructor
    · rw [hexact] at hsize
      have hdiv : size.bytes / 2 ^ 20 = size.bytes % 2 ^ 32 / 2 ^ 20 := Int.ofNat_inj.1 hsize
      omega
    · intro hzero
      rw [checkSufficientMemory, MemoryStats.query_sufficient_memory, if_pos hzero] at hanswer
      cases hanswer
  · rintro ⟨hbytes, htotal⟩
    rw [Nat.mod_eq_of_lt hbytes] at hsize
    refine ⟨hsize, ?_⟩
    rw [checkSufficientMemory_of_ne htotal, hsize]

/-- A video that is accepted although it does not fit has 2^32 bytes or more. -/
theorem le_bytes_of_accepted {stats : MemoryStats} {size : VideoSize}
    (h : checkSufficientMemory stats size = .ok true)
    (hfits : stats.availVirtMemMB ≤ (size.bytes / 2 ^ 20 : ℕ)) : 2 ^ 32 ≤ size.bytes := by
  by_contra hlt
  have hsize := size.videoSizeMb_toInt
  rw [Nat.mod_eq_of_lt (by omega)] at hsize
  by_cases htotal : stats.ttlVirtMemMB = 0
  · rw [checkSufficientMemory, MemoryStats.query_sufficient_memory, if_pos htotal] at h
    cases h
  · rw [checkSufficientMemory_of_ne htotal, hsize] at h
    have hless := of_decide_eq_true (Except.ok.inj h)
    omega

/-- 700 frames of 1920 times 1080 pixels, which take 4152 MB. -/
def longVideo : VideoSize := ⟨1920, 1080, 700⟩

/-- With 2 GB left they are accepted. -/
theorem long_video_accepted : longVideo.bytes / 2 ^ 20 = 4152 ∧
    checkSufficientMemory ⟨2 ^ 31, 0⟩ longVideo = .ok true ∧
    ¬ CheckExact ⟨2 ^ 31, 0⟩ longVideo := by
  have hnumber : longVideo.videoSizeMb.toInt = 56 := by decide
  refine ⟨by decide, by decide, fun h => ?_⟩
  have hexact := h.1
  rw [hnumber] at hexact
  exact absurd hexact (by decide)

end VCL

end Vdms
