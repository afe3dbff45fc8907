import Mathlib

/-! # Cutting a time interval at bucket boundaries

A half-open interval is cut at the multiples of a resolution. Division truncates
towards zero, so the buckets are the usual ones from time zero on.
-/

namespace CardScope.Library

structure Slice where
  bucket : ℤ
  start : ℤ
  stop : ℤ
deriving DecidableEq

def Slice.span (s : Slice) : ℤ := s.stop - s.start

theorem lt_bucket_add {res : ℤ} (hres : 0 < res) (start : ℤ) :
    start < start.tdiv res * res + res := by
  have h := Int.lt_tdiv_add_one_mul_self start hres
  rwa [add_mul, one_mul] at h

/-- Cut `[start, stop)` at the multiples of `res`. The test of `res` is for termination only. -/
def slices (res start stop : ℤ) : List Slice :=
  if _h : start < stop ∧ 0 < res then
    let bucket := start.tdiv res * res
    let next := min stop (bucket + res)
    ⟨bucket, start, next⟩ :: slices res next stop
  else []
termination_by (stop - start).toNat
decreasing_by
  have hb := lt_bucket_add _h.2 start
  omega

theorem slices_of_lt {res start stop : ℤ} (hres : 0 < res) (h : start < stop) :
    slices res start stop =
      ⟨start.tdiv res * res, start, min stop (start.tdiv res * res + res)⟩ ::
        slices res (min stop (start.tdiv res * res + res)) stop := by
  rw [slices, dif_pos ⟨h, hres⟩]

theorem slices_of_le {res start stop : ℤ} (h : stop ≤ start) : slices res start stop = [] := by
  rw [slices, dif_neg (by omega)]

/-- Induction along the cut: from the next boundary back to the start. -/
theorem slices_induction (res stop : ℤ) (hres : 0 < res) {P : ℤ → Prop}
    (done : ∀ start, stop ≤ start → P start)
    (cut : ∀ start, start < stop → P (min stop (start.tdiv res * res + res)) → P start)
    (start : ℤ) : P start := by
  induction hn : (stop - start).toNat using Nat.strong_induction_on generalizing start with
  | _ n ih =>
    by_cases h : start < stop
    · have hb := lt_bucket_add hres start
      exact cut start h (ih _ (by omega) _ rfl)
    · exact done start (by omega)

/-- Slices are non-empty, lie inside the interval and reach at most to the end of their bucket. -/
theorem mem_slices {res start stop : ℤ} (hres : 0 < res) {s : Slice}
    (hs : s ∈ slices res start stop) : start ≤ s.start ∧ s.start < s.stop ∧ s.stop ≤ stop ∧
      s.start < s.bucket + res ∧ s.stop ≤ s.bucket + res := by
  induction start using slices_induction res stop hres with
  | done start h => simp [slices_of_le h] at hs
  | cut start h ih =>
    have hb := lt_bucket_add hres start
    rw [slices_of_lt hres h, List.mem_cons] at hs
    rcases hs with rfl | hs
    · dsimp only
      omega
    · obtain ⟨h₁, h₂⟩ := ih hs
      exact ⟨by omega, h₂⟩

theorem sum_span_slices {res start stop : ℤ} (hres : 0 < res) (h : start ≤ stop) :
    ((slices res start stop).map Slice.span).sum = stop - start := by
  induction start using slices_induction res stop hres with
  | done start hle =>
    rw [slices_of_le hle, List.map_nil, List.sum_nil]
    omega
  | cut start hlt ih =>
    rw [slices_of_lt hres hlt, List.map_cons, List.sum_cons, ih (by omega)]
    simp only [Slice.span]
    omega

def overlap (start stop lo hi : ℤ) : ℤ := max 0 (min stop hi - max start lo)

/-- An aligned window contains a bucket exactly when it contains a point of it. -/
theorem bucket_mem_window {res lo width start : ℤ} (hres : 0 < res) (hlo : res ∣ lo)
    (hwidth : res ∣ width) (hstart : 0 ≤ start) :
    (lo ≤ start.tdiv res * res ∧ start.tdiv res * res < lo + width) ↔
      (lo ≤ start ∧ start < lo + width) := by
  obtain ⟨l, rfl⟩ := hlo
  obtain ⟨m, rfl⟩ := hwidth
  rw [Int.tdiv_eq_ediv_of_nonneg hstart, mul_comm _ res, ← mul_add,
    mul_le_mul_iff_right₀ hres, mul_lt_mul_iff_right₀ hres, Int.le_ediv_iff_mul_le hres,
    Int.ediv_lt_iff_lt_mul hres, mul_comm l, mul_comm (l + m)]

theorem bucket_add_le {res m start : ℤ} (hres : 0 < res) (hm : res ∣ m) (hstart : 0 ≤ start)
    (hlt : start < m) : start.tdiv res * res + res ≤ m := by
  obtain ⟨k, rfl⟩ := hm
  rw [Int.tdiv_eq_ediv_of_nonneg hstart, ← add_one_mul, mul_comm _ res]
  refine mul_le_mul_of_nonneg_left ?_ hres.le
  have hq := (Int.ediv_lt_iff_lt_mul hres).mpr (by rwa [mul_comm] at hlt)
  omega

/-- The slices whose bucket lies in an aligned window cover the overlap with the window. Time
before zero is allowed when the window begins after the bucket at zero. -/
theorem sum_span_window {res lo width start stop : ℤ} (hres : 0 < res) (hlo : res ∣ lo)
    (hwidth : res ∣ width) (hpos : 0 ≤ start ∨ res ≤ lo) :
    ((slices res start stop).map
      (fun s => if lo ≤ s.bucket ∧ s.bucket < lo + width then s.span else 0)).sum =
        overlap start stop lo (lo + width) := by
  induction start using slices_induction res stop hres with
  | done start hle =>
    rw [slices_of_le hle, List.map_nil, List.sum_nil, overlap]
    omega
  | cut start hlt ih =>
    have hb := lt_bucket_add hres start
    rw [slices_of_lt hres hlt, List.map_cons, List.sum_cons, ih (by omega)]
    simp only [Slice.span, overlap]
    by_cases hstart : 0 ≤ start
    · rw [if_congr (bucket_mem_window hres hlo hwidth hstart) rfl rfl]
      have hlow : start < lo → start.tdiv res * res + res ≤ lo :=
        bucket_add_le hres hlo hstart
      have hhigh : start < lo + width → start.tdiv res * res + res ≤ lo + width :=
        bucket_add_le hres (dvd_add hlo hwidth) hstart
      split_ifs <;> omega
    · have hbucket : start.tdiv res * res ≤ 0 := by
        have hq : 0 ≤ (-start).tdiv res := Int.tdiv_nonneg (by omega) hres.le
        rw [Int.neg_tdiv, neg_nonneg] at hq
        exact mul_nonpos_of_nonpos_of_nonneg hq hres.le
      rw [if_neg (by omega)]
      omega

/-! ## Cuts from time zero on -/

/-- What a cut of `[start, stop)` at the multiples of `res` is. -/
structure CutAt (res start stop : ℤ) (cuts : List Slice) : Prop where
  ascending : (cuts.map Slice.bucket).Pairwise (· < ·)
  aligned : ∀ s ∈ cuts, res ∣ s.bucket
  inside : ∀ s ∈ cuts, s.bucket ≤ s.start ∧ s.start < s.stop ∧ s.stop ≤ s.bucket + res
  cover : (cuts.map Slice.span).sum = stop - start

section Cut

variable {res start stop m : ℤ}

theorem bucket_le (hres : 0 < res) (hstart : 0 ≤ start) : start.tdiv res * res ≤ start := by
  rw [Int.tdiv_eq_ediv_of_nonneg hstart]
  exact Int.ediv_mul_le start hres.ne'

theorem bucket_eq (hres : 0 < res) (hstart : 0 ≤ start) (hm : start ≤ m)
    (hnext : m < start.tdiv res * res + res) : m.tdiv res * res = start.tdiv res * res := by
  have hlow : start.tdiv res * res ≤ m := (bucket_le hres hstart).trans hm
  have hm' : m < start.tdiv res * res + res := hnext
  rw [Int.tdiv_eq_ediv_of_nonneg (hstart.trans hm), Int.tdiv_eq_ediv_of_nonneg hstart] at *
  congr 1
  apply le_antisymm
  · have hlt : m / res < start / res + 1 := by
      rw [Int.ediv_lt_iff_lt_mul hres, add_one_mul]
      exact hm'
    omega
  · exact (Int.le_ediv_iff_mul_le hres).mpr hlow

theorem mem_bucket_slices (hres : 0 < res) (hstart : 0 ≤ start) (bucket : ℤ) :
    bucket ∈ (slices res start stop).map Slice.bucket ↔
      res ∣ bucket ∧ start < bucket + res ∧ bucket < stop ∧ start < stop := by
  induction start using slices_induction res stop hres with
  | done start hle =>
    rw [slices_of_le hle]
    simp only [List.map_nil, List.not_mem_nil, false_iff]
    omega
  | cut start hlt ih =>
    have hnext := lt_bucket_add hres start
    have hlow := bucket_le hres hstart
    have hdvd : res ∣ start.tdiv res * res := dvd_mul_left res _
    rw [slices_of_lt hres hlt, List.map_cons, List.mem_cons, ih (by omega)]
    dsimp only
    -- a multiple of the resolution is a bucket before this one, this one, or a later one
    have hcases : res ∣ bucket → bucket = start.tdiv res * res ∨
        bucket + res ≤ start.tdiv res * res ∨ start.tdiv res * res + res ≤ bucket := by
      rintro ⟨k, rfl⟩
      rcases lt_trichotomy k (start.tdiv res) with hk | rfl | hk
      · have hle := mul_le_mul_of_nonneg_left (Int.add_one_le_of_lt hk) hres.le
        right; left
        linarith
      · left
        ring
      · have hle := mul_le_mul_of_nonneg_left (Int.add_one_le_of_lt hk) hres.le
        right; right
        linarith
    constructor
    · rintro (rfl | ⟨hdiv, h⟩)
      · exact ⟨hdvd, by omega, by omega, hlt⟩
      · exact ⟨hdiv, by omega, by omega, hlt⟩
    · rintro ⟨hdiv, h₁, h₂, -⟩
      rcases hcases hdiv with h | h | h
      · exact .inl h
      · omega
      · exact .inr ⟨hdiv, by omega, h₂, by omega⟩

theorem cutAt_slices (hres : 0 < res) (hstart : 0 ≤ start) (hlt : start ≤ stop) :
    CutAt res start stop (slices res start stop) where
  ascending := by
    induction start using slices_induction res stop hres with
    | done start hle => simp [slices_of_le hle]
    | cut start h ih =>
      have hnext := lt_bucket_add hres start
      rw [slices_of_lt hres h, List.map_cons, List.pairwise_cons]
      refine ⟨?_, ih (by omega) (by omega)⟩
      intro bucket hbucket
      rw [mem_bucket_slices hres (by omega)] at hbucket
      have hlow := bucket_le hres hstart
      dsimp only
      by_contra hge
      omega
  aligned := fun s hs =>
    ((mem_bucket_slices hres hstart s.bucket).mp (List.mem_map_of_mem hs)).1
  inside := by
    intro s hs
    obtain ⟨-, hne, -, -, hend⟩ := mem_slices hres hs
    refine ⟨?_, hne, hend⟩
    induction start using slices_induction res stop hres with
    | done start hle => simp [slices_of_le hle] at hs
    | cut start h ih =>
      have hnext := lt_bucket_add hres start
      rw [slices_of_lt hres h, List.mem_cons] at hs
      rcases hs with rfl | hs
      · exact bucket_le hres hstart
      · exact ih (by omega) (by omega) hs
  cover := sum_span_slices hres hlt

theorem sum_span_split (hres : 0 < res) (hstart : 0 ≤ start) (hm : start ≤ m) (hstop : m ≤ stop)
    (W : ℤ → Bool) :
    ((slices res start m).map (fun s => if W s.bucket then s.span else 0)).sum +
      ((slices res m stop).map (fun s => if W s.bucket then s.span else 0)).sum =
        ((slices res start stop).map (fun s => if W s.bucket then s.span else 0)).sum := by
  induction start using slices_induction res m hres with
  | done start hle =>
    obtain rfl : start = m := le_antisymm hm hle
    rw [slices_of_le le_rfl, List.map_nil, List.sum_nil, zero_add]
  | cut start hlt ih =>
    have hnext := lt_bucket_add hres start
    rw [slices_of_lt hres hlt, slices_of_lt hres (hlt.trans_le hstop)]
    simp only [List.map_cons, List.sum_cons]
    by_cases hin : m < start.tdiv res * res + res
    · -- the cut and the start have one bucket
      rw [min_eq_left hin.le, slices_of_le le_rfl, List.map_nil, List.sum_nil, add_zero]
      by_cases hend : m < stop
      · rw [slices_of_lt hres hend, bucket_eq hres hstart hlt.le hin]
        simp only [List.map_cons, List.sum_cons]
        rw [← add_assoc]
        congr 1
        simp only [Slice.span]
        split_ifs <;> omega
      · obtain rfl : m = stop := by omega
        rw [min_eq_left hin.le, slices_of_le le_rfl, List.map_nil, List.sum_nil, add_zero]
    · have hmin : min m (start.tdiv res * res + res) = start.tdiv res * res + res := by omega
      have hmin' : min stop (start.tdiv res * res + res) = start.tdiv res * res + res := by omega
      rw [hmin] at ih
      rw [hmin, hmin', add_assoc, ih (by omega) (by omega)]

end Cut

end CardScope.Library
