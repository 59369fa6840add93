import Mathlib.NumberTheory.LucasLehmer
import Vdms.PixelIndex
import Vdms.UniqueIds

/-!
# Tile Extents

`find_tile_extents` enlarges each dimension of an array until it has a factor of which there are
enough tiles. Dimensions are 64-bit numbers, but the search is among `int`s.

## Main results

* `greatestFactor_spec`: what the factor is.
* `tiles_cover_iff`: the arrays that are covered by whole tiles.
-/

namespace Vdms

namespace VCL

namespace TDBObject

open Imp Imp.Prog TDBImage

/-- A 64-bit number as an `int`. -/
def asInt (u : UInt64) : ℤ := Int.bmod u.toNat (2 ^ 32)

/-- `TDBObject::greatest_factor`, of an `int`: the loop is not entered for 1 and less. A minimum
below 0 is met by every quotient. -/
def greatestFactorInt (minTileDimension a : ℤ) : ℤ :=
  if a ≤ 1 then a else greatestFactor minTileDimension.toNat a.toNat

/-- The inner loop of `find_tile_extents`. -/
def enlarge (minTileDimension dimension : ℤ) : Prog Unit IntOverflow (ℤ ⊕ ℤ × ℤ) :=
  let gfDimension := greatestFactorInt minTileDimension dimension
  if gfDimension = 1 then
    if dimension + 1 < 2 ^ 31 then pure (.inl (dimension + 1)) else throw .overflow
  else pure (.inr (dimension, gfDimension))

/-- A pass of the outer loop: the dimension of the array and that of the tiles. -/
def findTileExtent (minTileDimension : ℤ) (lower upper : UInt64) :
    Prog Unit IntOverflow (UInt64 × UInt64) := do
  let (dimension, gfDimension) ← loop (enlarge minTileDimension) (asInt (upper - lower))
  pure (UInt64.ofInt dimension - lower, UInt64.ofInt gfDimension)

/-- `TDBObject::find_tile_extents`, of the lower and upper bounds. -/
def findTileExtents (minTileDimension : ℤ) :
    List (UInt64 × UInt64) → Prog Unit IntOverflow (List (UInt64 × UInt64))
  | [] => pure []
  | (lower, upper) :: bounds => do
      let extent ← findTileExtent minTileDimension lower upper
      let extents ← findTileExtents minTileDimension bounds
      pure (extent :: extents)

/-- An upper bound above the lower bound 0. -/
abbrev UpperBound := { upper : UInt64 // upper ≠ 0 }

/-- The tiles of a dimension: they divide it, and it is not less than it was. -/
def CoveredBy (upper : UpperBound) (extent : UInt64 × UInt64) : Prop :=
  extent.2 ≠ 0 ∧ extent.2.toNat ∣ extent.1.toNat ∧ upper.1 ≤ extent.1

/-- All dimensions of an array are covered by whole tiles. -/
def TilesCover (minTileDimension : ℤ) (uppers : List UpperBound) : Prop :=
  ∃ extents, Runs (findTileExtents minTileDimension (uppers.map fun upper => (0, upper.1))) ()
    (.ret extents ()) ∧ List.Forall₂ CoveredBy uppers extents

/-- The dimensions for which there are tiles: an `int` for which, or behind which, there is one with
enough tiles; or a number that is negative as an `int`, which is its own tile. -/
def HasTiles (minTileDimension : ℤ) (upper : UpperBound) : Prop :=
  (upper.1.toNat < 2 ^ 31 - 1 ∧ minTileDimension < 2 ^ 30) ∨
    (upper.1.toNat = 2 ^ 31 - 1 ∧ minTileDimension ≤ 1) ∨
    2 ^ 31 ≤ upper.1.toNat % 2 ^ 32

/-! ### Factors -/

section Factors

variable {m a b n : ℕ}

/-- There is a factor of which there are enough tiles. -/
def HasFactor (m n : ℕ) : Prop := ∃ b, 1 < b ∧ b ∣ n ∧ m ≤ n / b

/-- The greatest factor from `b` down. Induction on `b`. -/
theorem greatestFactorFrom_spec (hb : 0 < b) :
    (1 < greatestFactorFrom m a b ∧ greatestFactorFrom m a b ∣ a ∧
      m ≤ a / greatestFactorFrom m a b) ∨
      (greatestFactorFrom m a b = 1 ∧ ∀ c, 1 < c → c ≤ b → ¬ (c ∣ a ∧ m ≤ a / c)) := by
  fun_induction greatestFactorFrom m a b with
  | case1 => omega
  | case2 => exact .inr ⟨rfl, fun c hc hle => by omega⟩
  | case3 b hfactor => exact .inl ⟨by omega, Nat.dvd_of_mod_eq_zero hfactor.1, hfactor.2⟩
  | case4 b hne ih =>
    obtain hfactor | ⟨hone, hnone⟩ := ih (by omega)
    · exact .inl hfactor
    · refine .inr ⟨hone, fun c hc hle hfactor => ?_⟩
      by_cases hlast : c = b + 2
      · subst hlast
        exact hne ⟨Nat.mod_eq_zero_of_dvd hfactor.1, hfactor.2⟩
      · exact hnone c hc (by omega) hfactor

/-- What the factor is: 1 if there is none. -/
theorem greatestFactor_spec (hn : 0 < n) :
    (HasFactor m n ∧ 1 < greatestFactor m n ∧ greatestFactor m n ∣ n) ∨
      (¬ HasFactor m n ∧ greatestFactor m n = 1) := by
  rw [greatestFactor]
  obtain ⟨hlt, hdvd, hle⟩ | ⟨hone, hnone⟩ := @greatestFactorFrom_spec m n n hn
  · exact .inl ⟨⟨_, hlt, hdvd, hle⟩, hlt, hdvd⟩
  · refine .inr ⟨?_, hone⟩
    rintro ⟨b, hb, hdvd, hle⟩
    exact hnone b hb (Nat.le_of_dvd hn hdvd) ⟨hdvd, hle⟩

theorem greatestFactorInt_eq (minTile : ℤ) (hn : 0 < n) :
    greatestFactorInt minTile n = greatestFactor minTile.toNat n := by
  rw [greatestFactorInt]
  split
  · obtain rfl : n = 1 := by omega
    rfl
  · rw [Int.toNat_natCast]

theorem two_pow_hasFactor (hm : m < 2 ^ 30) : HasFactor m (2 ^ 31 - 2) :=
  ⟨2, by decide, by decide, by omega⟩

/-- From 2^30 on there are not enough tiles in any `int`. -/
theorem not_hasFactor (hm : 2 ^ 30 ≤ m) (hn : n < 2 ^ 31) : ¬ HasFactor m n := by
  rintro ⟨b, hb, -, hle⟩
  have hhalf : n / b ≤ n / 2 := Nat.div_le_div_left hb (by decide)
  omega

theorem prime_maxInt : Nat.Prime (2 ^ 31 - 1) := by
  have hprime : (mersenne 31).Prime := lucas_lehmer_sufficiency _ (by simp) (by norm_num)
  simpa [mersenne] using hprime

/-- The greatest `int` is a prime number. -/
theorem maxInt_hasFactor : HasFactor m (2 ^ 31 - 1) ↔ m ≤ 1 := by
  constructor
  · rintro ⟨b, hb, hdvd, hle⟩
    obtain rfl | rfl := (Nat.dvd_prime prime_maxInt).1 hdvd
    · omega
    · omega
  · intro hm
    exact ⟨2 ^ 31 - 1, by decide, dvd_refl _, by omega⟩

end Factors

/-! ### The search for a dimension -/

section Search

variable {minTile : ℤ} {n k : ℕ}

theorem enlarge_stop (hn : 0 < n) (h : HasFactor minTile.toNat n) :
    enlarge minTile n = pure (.inr (n, greatestFactor minTile.toNat n)) := by
  obtain ⟨-, hlt, -⟩ | ⟨hnot, -⟩ := @greatestFactor_spec minTile.toNat n hn
  · rw [enlarge, greatestFactorInt_eq minTile hn]
    exact if_neg (by omega)
  · exact absurd h hnot

theorem enlarge_next (hn : 0 < n) (h : ¬ HasFactor minTile.toNat n) : enlarge minTile n =
    if n + 1 < 2 ^ 31 then pure (Sum.inl ((n + 1 : ℕ) : ℤ))
    else Prog.throw IntOverflow.overflow := by
  obtain ⟨hhas, -⟩ | ⟨-, hone⟩ := @greatestFactor_spec minTile.toNat n hn
  · exact absurd hhas h
  · rw [enlarge, greatestFactorInt_eq minTile hn, hone]
    refine (if_pos rfl).trans (if_congr ?_ rfl rfl)
    omega

/-- The search stops at the first number with a factor. Induction on the numbers before it. -/
theorem search_stops (hfactor : HasFactor minTile.toNat n) (hn : n < 2 ^ 31) :
    ∀ j k, k + j = n → 0 < k → (∀ i, k ≤ i → i < n → ¬ HasFactor minTile.toNat i) →
      Runs (loop (enlarge minTile) (k : ℤ)) ()
        (.ret ((n : ℤ), (greatestFactor minTile.toNat n : ℤ)) ()) := by
  intro j
  induction j with
  | zero =>
      rintro k rfl hk -
      refine Runs.loop_stop (Runs.of_eq fun _ => ?_)
      rw [enlarge_stop hk hfactor]
      rfl
  | succ j ih =>
      intro k hj hk hnone
      refine Runs.loop_step_ret (Runs.of_eq fun _ => ?_)
        (ih (k + 1) (by omega) (by omega) fun i hi => hnone i (by omega))
      rw [enlarge_next hk (hnone k le_rfl (by omega)), if_pos (by omega)]
      rfl

/-- Without such a number the search leaves the range of an `int`. Induction on the numbers before
its end. -/
theorem search_overflows : ∀ j k, k + j = 2 ^ 31 - 1 → 0 < k →
    (∀ i, k ≤ i → i < 2 ^ 31 → ¬ HasFactor minTile.toNat i) →
      Runs (loop (enlarge minTile) (k : ℤ)) () (.throw .overflow ()) := by
  intro j
  induction j with
  | zero =>
      intro k hj hk hnone
      refine Runs.loop_throw (Runs.of_eq fun _ => ?_)
      rw [enlarge_next hk (hnone k le_rfl (by omega)), if_neg (by omega)]
      rfl
  | succ j ih =>
      intro k hj hk hnone
      refine Runs.loop_step (Runs.of_eq fun _ => ?_)
        (ih (k + 1) (by omega) (by omega) fun i hi => hnone i (by omega)) (by simp)
      rw [enlarge_next hk (hnone k le_rfl (by omega)), if_pos (by omega)]
      rfl

end Search

/-! ### The dimension as an `int` -/

section AsInt

variable {u : UInt64}

theorem asInt_def : asInt u = Int.bmod u.toNat (2 ^ 32) := rfl

theorem asInt_neg_iff : asInt u < 0 ↔ 2 ^ 31 ≤ u.toNat % 2 ^ 32 := by
  rw [asInt_def, Int.bmod_def]
  push_cast
  split_ifs
  · omega
  · omega

theorem asInt_of_neg (h : asInt u < 0) : asInt u = (u.toNat % 2 ^ 32 : ℕ) - 2 ^ 32 := by
  rw [asInt_def, Int.bmod_def] at h ⊢
  push_cast at h ⊢
  split_ifs at h ⊢
  · omega
  · omega

theorem asInt_eq (h : 0 ≤ asInt u) : asInt u = (u.toNat % 2 ^ 32 : ℕ) := by
  rw [asInt_def, Int.bmod_def] at h ⊢
  push_cast at h ⊢
  split_ifs at h ⊢
  · omega
  · omega

theorem toNat_ofInt {v : ℤ} : ((UInt64.ofInt v).toNat : ℤ) = v % 2 ^ 64 := by
  rw [UInt64.ofInt, UInt64.toNat_ofNat']
  omega

end AsInt

/-! ### One dimension -/

section Dimension

variable {minTile : ℤ} {upper : UpperBound}

theorem runs_of_search {u : UInt64} {dimension gf : ℤ}
    (h : Runs (loop (enlarge minTile) (asInt u)) () (.ret (dimension, gf) ())) :
    Runs (findTileExtent minTile 0 u) () (.ret (UInt64.ofInt dimension, UInt64.ofInt gf) ()) := by
  rw [← UInt64.sub_zero u] at h
  rw [← UInt64.sub_zero (UInt64.ofInt dimension)]
  refine Runs.bind h ?_
  exact Runs.of_eq fun _ => rfl

theorem search_of_runs {u : UInt64} {extent : UInt64 × UInt64}
    (h : Runs (findTileExtent minTile 0 u) () (.ret extent ())) :
    ∃ dimension gf, Runs (loop (enlarge minTile) (asInt u)) () (.ret (dimension, gf) ()) ∧
      extent = (UInt64.ofInt dimension, UInt64.ofInt gf) := by
  obtain ⟨⟨dimension, gf⟩, _, hsearch, hrest⟩ := Runs.bind_inv h
  obtain ⟨rfl, -⟩ := Runs.pure_inv hrest
  refine ⟨dimension, gf, ?_, ?_⟩
  · rwa [UInt64.sub_zero] at hsearch
  · rw [UInt64.sub_zero]

/-- A number that is not positive as an `int` is its own tile. -/
theorem search_nonpos {v : ℤ} (h : v ≤ 0) :
    Runs (loop (enlarge minTile) v) () (.ret (v, v) ()) := by
  refine Runs.loop_stop (Runs.of_eq fun _ => ?_)
  have hself : greatestFactorInt minTile v = v := if_pos (by omega)
  rw [enlarge, hself]
  simp only [show v ≠ 1 by omega, if_false]
  rfl

/-- The search for a factor, from a positive number. -/
theorem search_result {k : ℕ} (hk : 0 < k) (hlt : k < 2 ^ 31) :
    (∃ n, k ≤ n ∧ n < 2 ^ 31 ∧ HasFactor minTile.toNat n ∧
      Runs (loop (enlarge minTile) (k : ℤ)) ()
        (.ret ((n : ℤ), (greatestFactor minTile.toNat n : ℤ)) ())) ∨
      ((∀ i, k ≤ i → i < 2 ^ 31 → ¬ HasFactor minTile.toNat i) ∧
        Runs (loop (enlarge minTile) (k : ℤ)) () (.throw .overflow ())) := by
  classical
  by_cases hsome : ∃ n, k ≤ n ∧ n < 2 ^ 31 ∧ HasFactor minTile.toNat n
  · obtain ⟨hle, hn, hfactor⟩ := Nat.find_spec hsome
    refine .inl ⟨Nat.find hsome, hle, hn, hfactor,
      search_stops hfactor hn (Nat.find hsome - k) k (by omega) hk fun i hki hi hhas => ?_⟩
    exact Nat.find_min hsome hi ⟨hki, hi.trans hn, hhas⟩
  · have hnone : ∀ i, k ≤ i → i < 2 ^ 31 → ¬ HasFactor minTile.toNat i :=
      fun i hki hi hhas => hsome ⟨i, hki, hi, hhas⟩
    exact .inr ⟨hnone, search_overflows (2 ^ 31 - 1 - k) k (by omega) hk hnone⟩

/-- What is found is an `int` that is not negative. -/
theorem search_bound {k : ℕ} (hlt : k < 2 ^ 31) {dimension gf : ℤ}
    (h : Runs (loop (enlarge minTile) (k : ℤ)) () (.ret (dimension, gf) ())) :
    0 ≤ dimension ∧ dimension < 2 ^ 31 := by
  by_cases hk : 0 < k
  · obtain ⟨n, -, hn, -, hruns⟩ | ⟨-, hthrow⟩ := @search_result minTile k hk hlt
    · cases h.unique hruns
      omega
    · cases h.unique hthrow
  · cases h.unique (search_nonpos (by omega))
    omega

theorem hasTiles_iff (hlt : upper.1.toNat < 2 ^ 31) : HasTiles minTile upper ↔
    ∃ n, upper.1.toNat ≤ n ∧ n < 2 ^ 31 ∧ HasFactor minTile.toNat n := by
  constructor
  · rintro (⟨hbelow, hmin⟩ | ⟨hmax, hmin⟩ | hneg)
    · exact ⟨2 ^ 31 - 2, by omega, by omega, two_pow_hasFactor (by omega)⟩
    · exact ⟨2 ^ 31 - 1, by omega, by omega, maxInt_hasFactor.2 (by omega)⟩
    · omega
  · rintro ⟨n, hle, hn, hfactor⟩
    have hmin : minTile.toNat < 2 ^ 30 := by
      by_contra hmin
      exact not_hasFactor (by omega) hn hfactor
    by_cases hmax : upper.1.toNat = 2 ^ 31 - 1
    · obtain rfl : n = 2 ^ 31 - 1 := by omega
      exact .inr (.inl ⟨hmax, by have := maxInt_hasFactor.1 hfactor; omega⟩)
    · exact .inl ⟨by omega, by omega⟩

theorem toNat_pos (upper : UpperBound) : 0 < upper.1.toNat :=
  Nat.pos_of_ne_zero fun hzero => upper.2 (UInt64.toNat_inj.1 hzero)

theorem le_iff_ofInt {v : ℤ} :
    upper.1 ≤ UInt64.ofInt v ↔ (upper.1.toNat : ℤ) ≤ v % 2 ^ 64 := by
  rw [UInt64.le_iff_toNat_le, ← toNat_ofInt]
  omega

theorem coveredBy_natCast {n gf : ℕ} (hn : n < 2 ^ 31) (hgf : 0 < gf) (hdvd : gf ∣ n)
    (hle : upper.1.toNat ≤ n) : CoveredBy upper (UInt64.ofInt n, UInt64.ofInt gf) := by
  have hpos := toNat_pos upper
  have hgfle := Nat.le_of_dvd (by omega) hdvd
  have harray : (UInt64.ofInt (n : ℤ)).toNat = n := by
    have := @toNat_ofInt (n : ℤ)
    omega
  have htile : (UInt64.ofInt (gf : ℤ)).toNat = gf := by
    have := @toNat_ofInt (gf : ℤ)
    omega
  refine ⟨fun hzero => ?_, ?_, le_iff_ofInt.2 (by omega)⟩
  · have hnat := congrArg UInt64.toNat hzero
    change (UInt64.ofInt (gf : ℤ)).toNat = 0 at hnat
    omega
  · change (UInt64.ofInt (gf : ℤ)).toNat ∣ (UInt64.ofInt (n : ℤ)).toNat
    rwa [harray, htile]

/-- A number that is negative as an `int` is its own tile, a multiple of 2^32 before the end of the
64-bit numbers. -/
theorem covered_of_neg (h : asInt upper.1 < 0) :
    ∃ extent, Runs (findTileExtent minTile 0 upper.1) () (.ret extent ()) ∧
      CoveredBy upper extent := by
  have heq := asInt_of_neg h
  have hlt := upper.1.toNat_lt
  have hval := @toNat_ofInt (asInt upper.1)
  refine ⟨_, runs_of_search (search_nonpos (by omega)), fun hzero => ?_, dvd_refl _,
    le_iff_ofInt.2 (by omega)⟩
  have hnat := congrArg UInt64.toNat hzero
  change (UInt64.ofInt (asInt upper.1)).toNat = 0 at hnat
  omega

theorem covered_iff_of_lt (hlt : upper.1.toNat < 2 ^ 31) :
    (∃ extent, Runs (findTileExtent minTile 0 upper.1) () (.ret extent ()) ∧
      CoveredBy upper extent) ↔
      ∃ n, upper.1.toNat ≤ n ∧ n < 2 ^ 31 ∧ HasFactor minTile.toNat n := by
  have hpos := toNat_pos upper
  have hself : asInt upper.1 = (upper.1.toNat : ℤ) := by
    rw [asInt_eq (by_contra fun hneg => by have := asInt_neg_iff.1 (not_le.1 hneg); omega)]
    omega
  obtain ⟨n, hle, hn, hfactor, hruns⟩ | ⟨hnone, hthrow⟩ :=
    @search_result minTile upper.1.toNat (by omega) hlt
  · refine iff_of_true ⟨_, runs_of_search (by rwa [hself]), ?_⟩ ⟨n, hle, hn, hfactor⟩
    obtain ⟨-, hgf, hdvd⟩ | ⟨hnot, -⟩ := @greatestFactor_spec minTile.toNat n (by omega)
    · exact coveredBy_natCast (by omega) (by omega) hdvd hle
    · exact absurd hfactor hnot
  · refine iff_of_false ?_ fun ⟨n, hle, hn, hfactor⟩ => hnone n hle hn hfactor
    rintro ⟨extent, hruns, -⟩
    obtain ⟨dimension, gf, hsearch, -⟩ := search_of_runs hruns
    rw [hself] at hsearch
    cases hsearch.unique hthrow

theorem not_covered (hle : 2 ^ 31 ≤ upper.1.toNat) (h : 0 ≤ asInt upper.1) :
    ¬ ∃ extent, Runs (findTileExtent minTile 0 upper.1) () (.ret extent ()) ∧
      CoveredBy upper extent := by
  rintro ⟨extent, hruns, -, -, hcover⟩
  obtain ⟨dimension, gf, hsearch, rfl⟩ := search_of_runs hruns
  have hself := asInt_eq h
  have hnonneg : ¬ 2 ^ 31 ≤ upper.1.toNat % 2 ^ 32 := fun hneg => by
    have := asInt_neg_iff.2 hneg
    omega
  have hbound := search_bound (by omega) (hself ▸ hsearch)
  have := le_iff_ofInt.1 hcover
  omega

/-- A dimension is covered by whole tiles if there are tiles for it. -/
theorem covered_iff : (∃ extent, Runs (findTileExtent minTile 0 upper.1) () (.ret extent ()) ∧
    CoveredBy upper extent) ↔ HasTiles minTile upper := by
  by_cases hneg : asInt upper.1 < 0
  · exact iff_of_true (covered_of_neg hneg) (.inr (.inr (asInt_neg_iff.1 hneg)))
  · by_cases hlt : upper.1.toNat < 2 ^ 31
    · rw [covered_iff_of_lt hlt, hasTiles_iff hlt]
    · refine iff_of_false (not_covered (by omega) (by omega)) ?_
      rintro (⟨hbelow, -⟩ | ⟨hmax, -⟩ | hhigh)
      · omega
      · omega
      · exact hneg (asInt_neg_iff.2 hhigh)

end Dimension

/-! ### All dimensions -/

theorem tilesCover_cons {minTile : ℤ} {upper : UpperBound} {uppers : List UpperBound} :
    TilesCover minTile (upper :: uppers) ↔
      (∃ extent, Runs (findTileExtent minTile 0 upper.1) () (.ret extent ()) ∧
        CoveredBy upper extent) ∧ TilesCover minTile uppers := by
  constructor
  · rintro ⟨_, hruns, hcovered⟩
    obtain ⟨extent, _, hextent, hrest⟩ := Runs.bind_inv hruns
    obtain ⟨extents, _, hextents, hpure⟩ := Runs.bind_inv hrest
    obtain ⟨rfl, -⟩ := Runs.pure_inv hpure
    rw [List.forall₂_cons] at hcovered
    exact ⟨⟨extent, hextent, hcovered.1⟩, extents, hextents, hcovered.2⟩
  · rintro ⟨⟨extent, hextent, hcovered⟩, extents, hextents, hall⟩
    exact ⟨extent :: extents,
      Runs.bind hextent (Runs.bind hextents (Runs.of_eq fun _ => rfl)), .cons hcovered hall⟩

/-- The arrays that are covered by whole tiles. Induction on the dimensions. -/
theorem tiles_cover_iff (minTileDimension : ℤ) (uppers : List UpperBound) :
    TilesCover minTileDimension uppers ↔ ∀ upper ∈ uppers, HasTiles minTileDimension upper := by
  induction uppers with
  | nil =>
      refine iff_of_true ⟨[], Runs.of_eq fun _ => rfl, .nil⟩ ?_
      simp
  | cons upper uppers ih => rw [tilesCover_cons, covered_iff, ih, List.forall_mem_cons]

/-- A dimension of 2^32 + 1 is 1 as an `int`: the 8 cells that are found do not hold it. -/
theorem long_dimension_lost : ¬ TilesCover 4 [⟨4294967297, by decide⟩] := by
  intro hcover
  have hint : asInt 4294967297 = 1 := by decide
  refine not_covered ?_ ?_ (tilesCover_cons.1 hcover).1
  · decide
  · change 0 ≤ asInt 4294967297
    omega

end TDBObject

end VCL

end Vdms
