import CardScope.Hub.Prune
import CardScope.Hub.Queries

/-! # Ranges that are still stored

The start of a query is bounded by the age of what is stored, and then moved to the start of its
bucket. The bucket that the cutoff cuts has been deleted, so the range is stored exactly when the
start is not in it and not before it.
-/

namespace CardScope.CardHours
open Hub

/-- No bucket of the range is one that a cleanup at the same time deletes. -/
def Stored (now : ℤ) (range : Range) : Prop :=
  ∀ k : RollupKey, k.res = range.res → range.fromMs ≤ k.bucket → k.bucket < range.toMs →
    expired now k = false

def cutoff (now res : ℤ) : ℤ := if res = 60000 then now - 30 * 86400000 else now - 500 * 86400000

/-- The start of the first bucket that does not begin before the cutoff. -/
def firstWhole (res cutoff : ℤ) : ℤ := -(-cutoff / res) * res

/-- The time is not before the first whole bucket after the cutoff; before 1970, where the division
rounds up, it may lie in the bucket before that one. -/
def InWhole (res cutoff t : ℤ) : Prop :=
  if 0 ≤ t then firstWhole res cutoff ≤ t else firstWhole res cutoff - res < t

instance (res cutoff t : ℤ) : Decidable (InWhole res cutoff t) :=
  inferInstanceAs (Decidable (if 0 ≤ t then _ else _))

theorem align_of_nonneg (res : ℤ) {t : ℤ} (ht : 0 ≤ t) : align res t = t / res * res := by
  rw [align, Int.tdiv_eq_ediv_of_nonneg ht]

theorem align_of_neg (res : ℤ) {t : ℤ} (ht : t < 0) : align res t = -(-t / res) * res := by
  rw [align, ← Int.tdiv_eq_ediv_of_nonneg (by omega : 0 ≤ -t), Int.neg_tdiv, neg_neg]

theorem le_align_iff {res : ℤ} (hres : 0 < res) (c t : ℤ) :
    c ≤ align res t ↔ InWhole res c t := by
  unfold InWhole firstWhole
  split_ifs with ht
  · calc c ≤ align res t ↔ -(t / res) * res ≤ -c := by
          rw [align_of_nonneg res ht, neg_mul]
          omega
      _ ↔ -(t / res) ≤ -c / res := (Int.le_ediv_iff_mul_le hres).symm
      _ ↔ -(-c / res) ≤ t / res := by omega
      _ ↔ -(-c / res) * res ≤ t := Int.le_ediv_iff_mul_le hres
  · calc c ≤ align res t ↔ -t / res * res ≤ -c := by
          rw [align_of_neg res (not_le.mp ht), neg_mul]
          omega
      _ ↔ -t / res ≤ -c / res := (Int.le_ediv_iff_mul_le hres).symm
      _ ↔ -t / res < -c / res + 1 := Int.lt_add_one_iff.symm
      _ ↔ -t < (-c / res + 1) * res := Int.ediv_lt_iff_lt_mul hres
      _ ↔ -(-c / res) * res - res < t := by
          rw [add_mul, one_mul, neg_mul]
          omega

theorem align_lt_add {res : ℤ} (hres : 0 < res) (t : ℤ) : align res t < t + res := by
  by_contra h
  have hwhole := (le_align_iff hres (t + res) t).mp (not_lt.mp h)
  have hceil : t + res ≤ firstWhole res (t + res) := by
    have hmod := Int.mul_ediv_add_emod (-(t + res)) res
    have hnonneg := Int.emod_nonneg (-(t + res)) hres.ne'
    rw [firstWhole, neg_mul, mul_comm]
    omega
  unfold InWhole at hwhole
  split_ifs at hwhole <;> omega

theorem le_align_of_neg {res : ℤ} (hres : 0 < res) {t : ℤ} (ht : t < 0) : t ≤ align res t := by
  have hmod := Int.mul_ediv_add_emod (-t) res
  have hnonneg := Int.emod_nonneg (-t) hres.ne'
  rw [align_of_neg res ht, neg_mul, mul_comm]
  omega

theorem align_le {res : ℤ} (hres : 0 < res) {t : ℤ} (ht : 0 ≤ t) : align res t ≤ t := by
  rw [align_of_nonneg res ht]
  exact Int.ediv_mul_le t hres.ne'

theorem le_align_add {res : ℤ} (hres : 0 < res) (t : ℤ) : t ≤ align res (t + res - 1) := by
  by_cases ht : 0 ≤ t + res - 1
  · have hlt := Int.lt_ediv_add_one_mul_self (t + res - 1) hres
    rw [align_of_nonneg res ht]
    rw [add_mul, one_mul] at hlt
    omega
  · have hle := le_align_of_neg hres (not_le.mp ht)
    omega

/-! ## The start of a query -/

def effectiveEnd (now stop : ℤ) : ℤ := if stop ≤ 0 ∨ stop > now then now else stop

/-- The start of a query: a day before its end unless a time is asked for, not more than 500 days
back; the hour before the end when nothing would be left. -/
def effectiveStart (now start stop : ℤ) : ℤ :=
  let bounded := max (if start ≤ 0 then stop - 24 * 3600000 else start) (now - 500 * 86400000)
  if bounded ≥ stop then stop - 3600000 else bounded

/-- Hours for more than a week or for more than 30 days back. -/
def precision (now start stop : ℤ) : ℤ :=
  if start < now - 30 * 86400000 ∨ stop - start > 7 * 86400000 then 3600000 else 60000

def BeginsStored (now start stop : ℤ) : Prop :=
  let stop := effectiveEnd now stop
  let start := effectiveStart now start stop
  let res := precision now start stop
  InWhole res (cutoff now res) start

instance (now start stop : ℤ) : Decidable (BeginsStored now start stop) :=
  inferInstanceAs (Decidable (InWhole _ _ _))

section Range

variable (now start stop : ℤ)

theorem queryRange_eq (r : Request) :
    let stop := effectiveEnd now (parseInt (r.query "to"))
    let start := effectiveStart now (parseInt (r.query "from")) stop
    let res := precision now start stop
    queryRange now r = ⟨align res start, align res (stop + res - 1), res⟩ := rfl

theorem precision_cases : precision now start stop = 60000 ∧ now - 30 * 86400000 ≤ start ∨
    precision now start stop = 3600000 := by
  unfold precision
  split_ifs with h
  · exact .inr rfl
  · exact .inl ⟨rfl, by omega⟩

theorem precision_pos : 0 < precision now start stop := by
  rcases precision_cases now start stop with ⟨h, -⟩ | h <;> omega

theorem effectiveStart_cases : effectiveStart now start stop = stop - 3600000 ∨
    now - 500 * 86400000 ≤ effectiveStart now start stop ∧ effectiveStart now start stop < stop := by
  unfold effectiveStart
  dsimp only
  split_ifs <;> omega

theorem expired_iff {k : RollupKey} {res : ℤ} (hres : res = 60000 ∨ res = 3600000)
    (hk : k.res = res) : expired now k = true ↔ k.bucket < cutoff now res := by
  rcases hres with rfl | rfl <;> simp [expired, cutoff, hk]

end Range

/-- A range is stored exactly when its first bucket is. -/
theorem stored_iff_cutoff_le (now : ℤ) (r : Request) :
    Stored now (queryRange now r) ↔
      cutoff now (queryRange now r).res ≤ (queryRange now r).fromMs := by
  rw [queryRange_eq]
  generalize effectiveEnd now (parseInt (r.query "to")) = stop
  have hstart := effectiveStart_cases now (parseInt (r.query "from")) stop
  generalize effectiveStart now (parseInt (r.query "from")) stop = start at hstart ⊢
  have hres := precision_cases now start stop
  have hpos := precision_pos now start stop
  generalize precision now start stop = res at hres hpos ⊢
  dsimp only
  have hexpired (k : RollupKey) (hk : k.res = res) := expired_iff now (k := k) (by tauto) hk
  constructor
  · intro hstored
    by_cases hlt : align res start < align res (stop + res - 1)
    · -- The first bucket of the range is stored.
      have hfirst := hstored ⟨"", "", "", res, align res start⟩ rfl le_rfl hlt
      have hnot := (hexpired ⟨"", "", "", res, align res start⟩ rfl).not.mp (by simp [hfirst])
      exact not_lt.mp hnot
    · -- The range is empty: its start was before 1970 and has been rounded up.
      have hend := le_align_add hpos stop
      have hadd := align_lt_add hpos start
      have hneg : start < 0 := by
        by_contra hnonneg
        have hle := align_le hpos (not_lt.mp hnonneg)
        omega
      have hle := le_align_of_neg hpos hneg
      unfold cutoff
      split_ifs <;> omega
  · intro hle k hk hfrom _
    have hnot : ¬ expired now k = true := by
      rw [hexpired k hk]
      exact not_lt.mpr (hle.trans hfrom)
    simpa using hnot

/-- The range of a query is still stored exactly when the query begins in a stored bucket. -/
theorem range_stored_iff (now : ℤ) (r : Request) :
    Stored now (queryRange now r) ↔
      BeginsStored now (parseInt (r.query "from")) (parseInt (r.query "to")) := by
  rw [stored_iff_cutoff_le, queryRange_eq]
  exact le_align_iff (precision_pos _ _ _) _ _

def wholeHistory : Request where
  method := "GET"
  path := "/api/v1/history"
  query := fun name => if name = "from" then "1" else ""

/-- The first hour of the whole history has been deleted unless the hour has just begun. -/
theorem first_hour_deleted : ¬ ∀ (now : ℤ) (r : Request),
    now - 500 * 86400000 ≤ effectiveEnd now (parseInt (r.query "to")) →
      Stored now (queryRange now r) := by
  intro h
  have hstored := h 1700000000000 wholeHistory (by decide +kernel)
  have hnot := hstored ⟨"n", "GPU-test", "", 3600000, 1656799200000⟩ (by decide +kernel)
    (by decide +kernel) (by decide +kernel)
  exact absurd hnot (by decide +kernel)

end CardScope.CardHours
