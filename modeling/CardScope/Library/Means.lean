import Mathlib

/-! # Weighted means

A mean with weights that are not negative lies between the values of positive weight.
-/

namespace CardScope.Library

variable {ι : Type*} (w x : ι → ℚ) {l : List ι} {low high : ℚ}

/-- The mean of `x` with the weights `w`. -/
def weightedMean (l : List ι) : ℚ := (l.map (fun i => w i * x i)).sum / (l.map w).sum

variable {w x}

theorem mul_sum_le (hw : ∀ i ∈ l, 0 ≤ w i) (hlow : ∀ i ∈ l, 0 < w i → low ≤ x i) :
    low * (l.map w).sum ≤ (l.map (fun i => w i * x i)).sum := by
  rw [← List.sum_map_mul_left]
  apply List.sum_le_sum
  intro i hi
  rcases (hw i hi).eq_or_lt with hzero | hpos
  · simp [← hzero]
  · rw [mul_comm]
    exact mul_le_mul_of_nonneg_left (hlow i hi hpos) hpos.le

theorem sum_le_mul (hw : ∀ i ∈ l, 0 ≤ w i) (hhigh : ∀ i ∈ l, 0 < w i → x i ≤ high) :
    (l.map (fun i => w i * x i)).sum ≤ high * (l.map w).sum := by
  rw [← List.sum_map_mul_left]
  apply List.sum_le_sum
  intro i hi
  rcases (hw i hi).eq_or_lt with hzero | hpos
  · simp [← hzero]
  · rw [mul_comm high]
    exact mul_le_mul_of_nonneg_left (hhigh i hi hpos) hpos.le

theorem weightedMean_mem (hw : ∀ i ∈ l, 0 ≤ w i) (hpos : 0 < (l.map w).sum)
    (hx : ∀ i ∈ l, 0 < w i → low ≤ x i ∧ x i ≤ high) :
    low ≤ weightedMean w x l ∧ weightedMean w x l ≤ high := by
  constructor
  · exact (le_div_iff₀ hpos).mpr (mul_sum_le hw (fun i hi h => (hx i hi h).1))
  · exact (div_le_iff₀ hpos).mpr (sum_le_mul hw (fun i hi h => (hx i hi h).2))

theorem exists_pos_of_sum_pos (hpos : 0 < (l.map w).sum) : ∃ i ∈ l, 0 < w i := by
  by_contra hnone
  push Not at hnone
  have hle : (l.map w).sum ≤ (l.map (fun _ => (0 : ℚ))).sum := List.sum_le_sum hnone
  rw [List.map_const', List.sum_replicate, smul_zero] at hle
  exact absurd hpos (not_lt.mpr hle)

theorem exists_extremes (x : ι → ℚ) (hl : l ≠ []) :
    ∃ i ∈ l, ∃ j ∈ l, ∀ k ∈ l, x i ≤ x k ∧ x k ≤ x j := by
  obtain ⟨i, hi⟩ := Option.ne_none_iff_exists'.mp (mt List.argmin_eq_none.mp hl : l.argmin x ≠ none)
  obtain ⟨j, hj⟩ := Option.ne_none_iff_exists'.mp (mt List.argmax_eq_none.mp hl : l.argmax x ≠ none)
  exact ⟨i, List.argmin_mem hi, j, List.argmax_mem hj, fun k hk =>
    ⟨List.le_of_mem_argmin hk hi, List.le_of_mem_argmax hk hj⟩⟩

theorem weightedMean_between (x : ι → ℚ) (hw : ∀ i ∈ l, 0 ≤ w i) (hpos : 0 < (l.map w).sum) :
    ∃ i ∈ l, ∃ j ∈ l, 0 < w i ∧ 0 < w j ∧ (∀ k ∈ l, 0 < w k → x i ≤ x k ∧ x k ≤ x j) ∧
      x i ≤ weightedMean w x l ∧ weightedMean w x l ≤ x j := by
  have hcount : l.filter (fun i => 0 < w i) ≠ [] := by
    obtain ⟨i, hi, hwi⟩ := exists_pos_of_sum_pos hpos
    exact List.ne_nil_of_mem (List.mem_filter.mpr ⟨hi, decide_eq_true hwi⟩)
  obtain ⟨i, hi, j, hj, hbetween⟩ := exists_extremes x hcount
  rw [List.mem_filter, decide_eq_true_eq] at hi hj
  have hall : ∀ k ∈ l, 0 < w k → x i ≤ x k ∧ x k ≤ x j :=
    fun k hk hwk => hbetween k (List.mem_filter.mpr ⟨hk, decide_eq_true hwk⟩)
  exact ⟨i, hi.1, j, hj.1, hi.2, hj.2, hall, weightedMean_mem hw hpos hall⟩

theorem sum_map_filter {p : ι → Bool} (h : ∀ i ∈ l, p i = false → x i = 0) :
    ((l.filter p).map x).sum = (l.map x).sum := by
  induction l with
  | nil => rfl
  | cons i l ih =>
    rw [List.forall_mem_cons] at h
    rw [List.map_cons, List.sum_cons, ← ih h.2]
    cases hp : p i with
    | true => rw [List.filter_cons_of_pos hp, List.map_cons, List.sum_cons]
    | false => rw [List.filter_cons_of_neg (by simp [hp]), h.1 hp, zero_add]

end CardScope.Library
