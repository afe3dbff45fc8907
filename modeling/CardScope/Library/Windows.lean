import Mathlib

/-! # Fixed windows

Arrivals are counted in windows of a fixed length: the first arrival after a window has run out
opens the next one. No count passes a limit exactly when every window holds that many arrivals at
most.
-/

namespace CardScope.Library

/-- A window that an arrival opened. -/
structure Window where
  count : ℕ
  reset : ℤ

variable {span : ℤ} {limit : ℕ} {w : Option Window} {times rest : List ℤ} {t : ℤ}

/-- Count an arrival in the open window, or open the next. -/
def Window.next (span : ℤ) (w : Option Window) (t : ℤ) : Window :=
  match w with
  | none => ⟨1, t + span⟩
  | some w => if t > w.reset then ⟨1, t + span⟩ else ⟨w.count + 1, w.reset⟩

def windows (span : ℤ) : List ℤ → List (List ℤ)
  | [] => []
  | t :: rest =>
    (t :: rest.takeWhile (· ≤ t + span)) :: windows span (rest.dropWhile (· ≤ t + span))
termination_by times => times.length
decreasing_by
  simp only [List.length_cons]
  exact Nat.lt_succ_of_le (List.dropWhile_sublist _).length_le

@[simp] theorem windows_nil : windows span [] = [] := by rw [windows]

theorem windows_cons (span : ℤ) (t : ℤ) (rest : List ℤ) : windows span (t :: rest) =
    (t :: rest.takeWhile (· ≤ t + span)) :: windows span (rest.dropWhile (· ≤ t + span)) := by
  rw [windows]

theorem windows_eq_singleton (h : ∀ t' ∈ rest, t' ≤ t + span) :
    windows span (t :: rest) = [t :: rest] := by
  have htake : rest.takeWhile (· ≤ t + span) = rest :=
    List.takeWhile_eq_self_iff.mpr (fun t' ht' => decide_eq_true (h t' ht'))
  have hdrop : rest.dropWhile (· ≤ t + span) = [] :=
    List.dropWhile_eq_nil_iff.mpr (fun t' ht' => decide_eq_true (h t' ht'))
  rw [windows_cons, htake, hdrop, windows_nil]

/-- The arrivals fit into their windows, the first of which may be open already. -/
def Fits (span : ℤ) (limit : ℕ) : Option Window → List ℤ → Prop
  | none, times => ∀ b ∈ windows span times, b.length ≤ limit
  | some w, times => (times.takeWhile (· ≤ w.reset) = [] ∨
      w.count + (times.takeWhile (· ≤ w.reset)).length ≤ limit) ∧
    ∀ b ∈ windows span (times.dropWhile (· ≤ w.reset)), b.length ≤ limit

theorem fits_nil (span : ℤ) (limit : ℕ) (w : Option Window) : Fits span limit w [] := by
  cases w with
  | none => simp [Fits]
  | some w => simp [Fits]

/-- A window that has run out is like none. -/
theorem fits_of_run_out {w : Window} (h : ∀ t ∈ times.head?, w.reset < t) :
    Fits span limit (some w) times ↔ Fits span limit none times := by
  have hsplit : times.takeWhile (· ≤ w.reset) = [] ∧ times.dropWhile (· ≤ w.reset) = times := by
    cases times with
    | nil => exact ⟨rfl, rfl⟩
    | cons t rest => simp [h t rfl]
  simp only [Fits, hsplit, true_or, true_and]

/-- The window is still there, unless it has run out by now. -/
def Carried (now : ℤ) (w w' : Option Window) : Prop :=
  w' = w ∨ w' = none ∧ ∃ v, w = some v ∧ v.reset < now

theorem next_of_carried (span : ℤ) {now : ℤ} {w w' : Option Window} (h : Carried now w w') :
    Window.next span w' now = Window.next span w now := by
  rcases h with rfl | ⟨rfl, v, rfl, hv⟩
  · rfl
  · exact (if_pos hv).symm

theorem fits_of_carried {now : ℤ} {w w' : Option Window} (h : Carried now w w')
    (htimes : ∀ t ∈ times.head?, now ≤ t) :
    Fits span limit w' times ↔ Fits span limit w times := by
  rcases h with rfl | ⟨rfl, v, rfl, hv⟩
  · exact Iff.rfl
  · exact (fits_of_run_out (fun t ht => hv.trans_le (htimes t ht))).symm

theorem fits_none_cons : Fits span limit none (t :: rest) ↔
    1 ≤ limit ∧ Fits span limit (some ⟨1, t + span⟩) rest := by
  simp only [Fits, windows_cons, List.forall_mem_cons, List.length_cons]
  by_cases hnil : rest.takeWhile (· ≤ t + span) = []
  · simp [hnil]
  · simp only [hnil, false_or]
    constructor
    · exact fun h => ⟨by omega, by omega, h.2⟩
    · exact fun h => ⟨by omega, h.2.2⟩

theorem fits_some_cons {w : Window} (h : t ≤ w.reset) : Fits span limit (some w) (t :: rest) ↔
    w.count + 1 ≤ limit ∧ Fits span limit (some ⟨w.count + 1, w.reset⟩) rest := by
  simp only [Fits, List.takeWhile_cons, List.dropWhile_cons, h, decide_true, if_true, reduceCtorEq,
    false_or, List.length_cons]
  by_cases hnil : rest.takeWhile (· ≤ w.reset) = []
  · simp [hnil]
  · simp only [hnil, false_or]
    constructor
    · exact fun h => ⟨by omega, by omega, h.2⟩
    · exact fun h => ⟨by omega, h.2.2⟩

theorem fits_cons : Fits span limit w (t :: rest) ↔
    (Window.next span w t).count ≤ limit ∧ Fits span limit (some (Window.next span w t)) rest := by
  cases w with
  | none => exact fits_none_cons
  | some w =>
    by_cases h : t > w.reset
    · rw [fits_of_run_out (by simpa using h), Window.next, if_pos h]
      exact fits_none_cons
    · rw [Window.next, if_neg h]
      exact fits_some_cons (not_lt.mp h)

/-! ## Places taken -/

def Open (w : Option Window) (t : ℤ) : Prop := ∃ v ∈ w, t ≤ v.reset

/-- At most `limit` arrivals were let in, all of them counted while the window is open. -/
def Used (limit n : ℕ) (w : Option Window) : Prop := n ≤ limit ∧ ∀ v ∈ w, n ≤ v.count

theorem used_zero (limit : ℕ) (w : Option Window) : Used limit 0 w :=
  ⟨Nat.zero_le limit, fun v _ => Nat.zero_le v.count⟩

theorem Used.carried {n : ℕ} {now : ℤ} {w w' : Option Window} (hn : Used limit n w)
    (h : Carried now w w') : Used limit n w' := by
  rcases h with rfl | ⟨rfl, -⟩
  · exact hn
  · exact ⟨hn.1, fun v hv => by cases hv⟩

theorem Used.next {n : ℕ} (hn : Used limit n w) (hopen : Open w t) :
    Used limit (n + if (Window.next span w t).count ≤ limit then 1 else 0)
      (some (Window.next span w t)) := by
  obtain ⟨v, rfl, hv⟩ := hopen
  have hcount := hn.2 v rfl
  have hle := hn.1
  rw [Window.next, if_neg (not_lt.mpr hv)]
  constructor
  · dsimp only
    split_ifs <;> omega
  · rintro v' ⟨⟩
    dsimp only
    split_ifs <;> omega

theorem next_of_not_open (span : ℤ) (h : ¬ Open w t) : Window.next span w t = ⟨1, t + span⟩ := by
  cases w with
  | none => rfl
  | some v =>
    have hlate : t > v.reset := by
      by_contra hle
      exact h ⟨v, rfl, not_lt.mp hle⟩
    rw [Window.next, if_pos hlate]

end CardScope.Library
