import CardScope.Library.Chain
import CardScope.Library.Slices

/-! # The state in force at an instant

A list of observations in time order tells the state at every instant: an observation holds
until the next one, when it holds that long at all. A sum over neighbouring pairs weighted by
their overlap with a window is the sum of the states in force over the instants of the window.
-/

namespace CardScope.Library

section Force

variable {α M : Type*} (time : α → ℤ) (holds : α → α → Prop) [DecidableRel holds]

/-- The observation that holds at an instant: the one that it lies behind, up to the next. -/
def inForce (t : ℤ) : List α → Option α
  | a :: b :: l => if time a ≤ t ∧ t < time b ∧ holds a b then some a else inForce t (b :: l)
  | _ => none

variable {time holds} {t : ℤ} {l : List α}

theorem inForce_of_lt_head (h : Ascending time l) (hhead : ∀ a ∈ l.head?, t < time a) :
    inForce time holds t l = none := by
  induction l with
  | nil => rfl
  | cons a l ih =>
    cases l with
    | nil => rfl
    | cons b l =>
      have hlt : t < time a := hhead a rfl
      have hab : time a < time b := (List.pairwise_cons.mp h).1 b List.mem_cons_self
      rw [inForce, if_neg (by omega)]
      apply ih (List.pairwise_cons.mp h).2
      intro c hc
      obtain rfl : b = c := by simpa using hc
      exact hlt.trans hab

theorem inForce_eq_some (h : Ascending time l) {a : α} : inForce time holds t l = some a ↔
    ∃ b, Adjacent a b l ∧ holds a b ∧ time a ≤ t ∧ t < time b := by
  induction l with
  | nil => simp [inForce, Adjacent]
  | cons x l ih =>
    cases l with
    | nil => simp [inForce, Adjacent]
    | cons y l =>
      obtain ⟨hx, htail⟩ := List.pairwise_cons.mp h
      have hxy : time x < time y := hx y List.mem_cons_self
      simp only [inForce, Adjacent]
      split_ifs with hcond
      · constructor
        · intro he
          obtain rfl : x = a := by simpa using he
          exact ⟨y, .inl ⟨rfl, rfl⟩, hcond.2.2, hcond.1, hcond.2.1⟩
        · rintro ⟨b, ⟨rfl, -⟩ | hadj, -, hle, -⟩
          · rfl
          · have hya : time y ≤ time a := Ascending.head_le htail rfl hadj.mem.1
            omega
      · rw [ih htail]
        constructor
        · rintro ⟨b, hadj, hb⟩
          exact ⟨b, .inr hadj, hb⟩
        · rintro ⟨b, ⟨rfl, rfl⟩ | hadj, hb⟩
          · exact absurd ⟨hb.2.1, hb.2.2, hb.1⟩ hcond
          · exact ⟨b, hadj, hb⟩

/-- The instants of a window that lie in an interval, as many as the overlap is long. -/
theorem sum_instants [AddCommGroup M] (start stop lo hi : ℤ) (x : M) :
    ∑ t ∈ Finset.Ico lo hi, (if start ≤ t ∧ t < stop then x else 0) =
      overlap start stop lo hi • x := by
  have hfilter : (Finset.Ico lo hi).filter (fun t => start ≤ t ∧ t < stop) =
      Finset.Ico (max start lo) (min stop hi) := by
    ext t
    simp only [Finset.mem_filter, Finset.mem_Ico]
    omega
  rw [← Finset.sum_filter, hfilter, Finset.sum_const, Int.card_Ico, ← natCast_zsmul, overlap]
  congr 1
  omega

/-- The pairs that hold, each over its overlap with a window, sum up to the states in force over
the instants of the window. -/
theorem chainSum_overlap [AddCommGroup M] (h : Ascending time l) (lo hi : ℤ) (rate : α → M) :
    chainSum (fun a b => if holds a b then overlap (time a) (time b) lo hi • rate a else 0) l =
      ∑ t ∈ Finset.Ico lo hi, (inForce time holds t l).elim 0 rate := by
  induction l with
  | nil => simp [chainSum, inForce]
  | cons a l ih =>
    cases l with
    | nil => simp [chainSum, inForce]
    | cons b l =>
      obtain ⟨hhead, htail⟩ := List.pairwise_cons.mp h
      have hsplit : ∀ t, (inForce time holds t (a :: b :: l)).elim 0 rate =
          (if time a ≤ t ∧ t < time b then (if holds a b then rate a else 0) else 0) +
            (inForce time holds t (b :: l)).elim 0 rate := by
        intro t
        by_cases hin : time a ≤ t ∧ t < time b
        · -- the later pairs begin after the instant
          have hlater : inForce time holds t (b :: l) = none := by
            apply inForce_of_lt_head htail
            intro c hc
            obtain rfl : b = c := by simpa using hc
            exact hin.2
          by_cases hab : holds a b <;> simp [inForce, hin, hab, hlater]
        · have hnot : ¬ (time a ≤ t ∧ t < time b ∧ holds a b) := fun hc => hin ⟨hc.1, hc.2.1⟩
          rw [inForce, if_neg hnot, if_neg hin, zero_add]
      rw [chainSum, ih htail]
      simp only [hsplit]
      rw [Finset.sum_add_distrib, sum_instants]
      by_cases hab : holds a b <;> simp [hab]

end Force

end CardScope.Library
