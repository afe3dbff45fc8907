import Mathlib

/-! # Decimal texts of one width

Texts of digits that have the same length are ordered like the numbers they denote, whatever follows
them.
-/

namespace CardScope.Library

def Decimal (l : List Char) : Prop := ∀ c ∈ l, c.isDigit = true

variable {xs ys us vs : List Char}

theorem Decimal.cons {c : Char} (h : Decimal (c :: xs)) :
    c.toNat - '0'.toNat ≤ 9 ∧ '0'.toNat ≤ c.toNat ∧ Decimal xs := by
  have hc := h c List.mem_cons_self
  simp only [Char.isDigit, Bool.and_eq_true, decide_eq_true_eq] at hc
  have hlow : '0'.toNat ≤ c.toNat := hc.1
  have hhigh : c.toNat ≤ '9'.toNat := hc.2
  have hzero : '0'.toNat = 48 := by decide
  have hnine : '9'.toNat = 57 := by decide
  exact ⟨by omega, hlow, fun d hd => h d (List.mem_cons_of_mem c hd)⟩

theorem ofDigitChars_lt (hx : Decimal xs) (hlength : xs.length = ys.length) {m n : ℕ} (h : m < n) :
    Nat.ofDigitChars 10 xs m < Nat.ofDigitChars 10 ys n := by
  induction xs generalizing ys m n with
  | nil =>
    obtain rfl := List.length_eq_zero_iff.mp hlength.symm
    simpa using h
  | cons x xs ih =>
    obtain ⟨y, ys, rfl⟩ := List.exists_cons_of_length_eq_add_one hlength.symm
    obtain ⟨hdigit, -, hrest⟩ := hx.cons
    rw [Nat.ofDigitChars_cons, Nat.ofDigitChars_cons]
    exact ih hrest (Nat.succ.inj hlength) (by omega)

/-- The order of the texts is that of the numbers, also when something follows. -/
theorem ofDigitChars_mono (hx : Decimal xs) (hy : Decimal ys) (hlength : xs.length = ys.length)
    (h : xs ++ us ≤ ys ++ vs) (n : ℕ) : Nat.ofDigitChars 10 xs n ≤ Nat.ofDigitChars 10 ys n := by
  induction xs generalizing ys n with
  | nil =>
    obtain rfl := List.length_eq_zero_iff.mp hlength.symm
    exact le_rfl
  | cons x xs ih =>
    obtain ⟨y, ys, rfl⟩ := List.exists_cons_of_length_eq_add_one hlength.symm
    obtain ⟨-, hxlow, hxs⟩ := hx.cons
    obtain ⟨-, hylow, hys⟩ := hy.cons
    rw [Nat.ofDigitChars_cons, Nat.ofDigitChars_cons]
    rcases lt_trichotomy x y with hlt | rfl | hgt
    · have hvalue : x.toNat < y.toNat := hlt
      exact (ofDigitChars_lt hxs (Nat.succ.inj hlength) (by omega)).le
    · have hle : xs ++ us ≤ ys ++ vs := not_lt.mp (fun hlt => h.not_gt (List.Lex.cons hlt))
      exact ih hxs hys (Nat.succ.inj hlength) hle _
    · exact absurd (List.Lex.rel hgt) h.not_gt

end CardScope.Library
