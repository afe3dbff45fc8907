import Mathlib

/-! # Blocks of a list

The entries that begin a maximal block of neighbouring entries with a property, and what an
insertion does to them.
-/

namespace CardScope.Library

variable {α : Type*} {p : α → Bool} {inside : Bool} {a c : α} {l l₁ l₂ : List α}

/-- The entries with `p` that follow one without; `inside` tells of the entry before the list. -/
def blockStarts (p : α → Bool) : Bool → List α → List α
  | _, [] => []
  | inside, a :: l => if p a && !inside then a :: blockStarts p (p a) l else blockStarts p (p a) l

def endsInBlock (p : α → Bool) (l : List α) : Bool := l.getLast?.any p

theorem blockStarts_cons (p : α → Bool) (inside : Bool) (a : α) (l : List α) :
    blockStarts p inside (a :: l) =
      (if p a && !inside then [a] else []) ++ blockStarts p (p a) l := by
  rw [blockStarts]
  split_ifs <;> rfl

theorem blockStarts_append (l₁ l₂ : List α) : blockStarts p false (l₁ ++ l₂) =
    blockStarts p false l₁ ++ blockStarts p (endsInBlock p l₁) l₂ := by
  induction l₁ using List.reverseRecOn generalizing l₂ with
  | nil => rfl
  | append_singleton l₁ a ih =>
    have hlast : endsInBlock p (l₁ ++ [a]) = p a := by simp [endsInBlock]
    rw [List.append_assoc, List.singleton_append, ih, ih, hlast, blockStarts_cons,
      blockStarts_cons, List.append_assoc, List.append_assoc]
    rfl

theorem blockStarts_congr {i j : Bool} (h : ∀ c ∈ l.head?, p c = true → i = j) :
    blockStarts p i l = blockStarts p j l := by
  cases l with
  | nil => rfl
  | cons c l =>
    rw [blockStarts_cons, blockStarts_cons]
    by_cases hc : p c
    · rw [h c rfl hc]
    · simp [hc]

theorem length_blockStarts_cons (hc : p c = true) (inside : Bool) (l : List α) :
    (blockStarts p inside (c :: l)).length =
      (if inside then 0 else 1) + (blockStarts p true l).length := by
  rw [blockStarts_cons, hc]
  cases inside <;> simp [add_comm]

/-- An insertion changes the begins of blocks by its own begin only, unless it stands before a block
and differs from what stood there. -/
theorem length_blockStarts_insert (hc : l₂.head? = some c) (hp : p c = true)
    (hchange : endsInBlock p l₁ ≠ p a) : (blockStarts p false (l₁ ++ a :: l₂)).length ≠
      (if p a && !endsInBlock p l₁ then 1 else 0) + (blockStarts p false (l₁ ++ l₂)).length := by
  obtain ⟨l, rfl⟩ : ∃ l, l₂ = c :: l := by
    cases l₂ with
    | nil => simp at hc
    | cons y l => exact ⟨l, by rw [Option.some.inj hc]⟩
  rw [blockStarts_append, blockStarts_append, blockStarts_cons, List.length_append,
    List.length_append, List.length_append, length_blockStarts_cons hp,
    length_blockStarts_cons hp]
  cases hi : endsInBlock p l₁ <;> cases ha : p a <;> simp_all

theorem blockStarts_insert (h : ∀ c ∈ l₂.head?, p c = true → endsInBlock p l₁ = p a) :
    (blockStarts p false (l₁ ++ a :: l₂)).Perm
      ((if p a && !endsInBlock p l₁ then [a] else []) ++ blockStarts p false (l₁ ++ l₂)) := by
  rw [blockStarts_append, blockStarts_append, blockStarts_cons, blockStarts_congr h]
  exact (List.perm_append_comm_assoc _ _ _)

/-- The entry that begins the block in which the list ends. -/
def currentStart (p : α → Bool) (l : List α) : Option α :=
  if endsInBlock p l then (blockStarts p false l).getLast? else none

@[simp] theorem currentStart_nil : currentStart p [] = none := rfl

theorem blockStarts_ne_nil (h : endsInBlock p l = true) : blockStarts p false l ≠ [] := by
  induction l using List.reverseRecOn with
  | nil => simp [endsInBlock] at h
  | append_singleton l a ih =>
    have ha : p a = true := by simpa [endsInBlock] using h
    rw [blockStarts_append, blockStarts_cons, ha]
    cases hl : endsInBlock p l with
    | false => simp
    | true => simp [ih hl]

@[simp] theorem currentStart_snoc : currentStart p (l ++ [a]) =
    if p a then some ((currentStart p l).getD a) else none := by
  have hlast : endsInBlock p (l ++ [a]) = p a := by simp [endsInBlock]
  rw [currentStart, hlast]
  by_cases ha : p a = true
  · rw [if_pos ha, if_pos ha, blockStarts_append, blockStarts_cons, ha, currentStart]
    cases hl : endsInBlock p l with
    | false => simp [blockStarts]
    | true =>
      obtain ⟨x, hx⟩ : ∃ x, (blockStarts p false l).getLast? = some x :=
        Option.ne_none_iff_exists'.mp (by simpa using blockStarts_ne_nil hl)
      simp [blockStarts, hx]
  · rw [if_neg ha, if_neg ha]

theorem currentStart_eq_none : currentStart p l = none ↔ endsInBlock p l = false := by
  induction l using List.reverseRecOn with
  | nil => simp [endsInBlock]
  | append_singleton l a ih => simp [endsInBlock]

theorem currentStart_eq_some : currentStart p l = some a ↔
    ∃ before block, l = before ++ a :: block ∧ (∀ x ∈ a :: block, p x = true) ∧
      endsInBlock p before = false := by
  induction l using List.reverseRecOn with
  | nil => simp
  | append_singleton l z ih =>
    rw [currentStart_snoc]
    constructor
    · intro h
      obtain ⟨hz, hstart⟩ : p z = true ∧ (currentStart p l).getD z = a := by simpa using h
      cases hl : currentStart p l with
      | none =>
        obtain rfl : z = a := by simpa [hl] using hstart
        exact ⟨l, [], rfl, by simpa using hz, currentStart_eq_none.mp hl⟩
      | some x =>
        obtain rfl : x = a := by simpa [hl] using hstart
        obtain ⟨before, block, rfl, hblock, hbefore⟩ := ih.mp hl
        refine ⟨before, block ++ [z], by simp, ?_, hbefore⟩
        intro y hy
        rw [← List.cons_append, List.mem_append, List.mem_singleton] at hy
        rcases hy with hy | rfl
        · exact hblock y hy
        · exact hz
    · rintro ⟨before, block, hsplit, hblock, hbefore⟩
      induction block using List.reverseRecOn with
      | nil =>
        obtain ⟨rfl, hlast⟩ := List.append_inj' hsplit rfl
        obtain rfl : z = a := by simpa using hlast
        simp [hblock z, currentStart_eq_none.mpr hbefore]
      | append_singleton block y _ =>
        rw [← List.cons_append, ← List.append_assoc] at hsplit
        obtain ⟨rfl, hlast⟩ := List.append_inj' hsplit rfl
        obtain rfl : z = y := by simpa using hlast
        have hstart : currentStart p (before ++ a :: block) = some a :=
          ih.mpr ⟨before, block, rfl, fun x hx => hblock x (List.mem_append_left [z] hx), hbefore⟩
        simp [hblock z, hstart]

theorem mem_of_currentStart (h : currentStart p l = some a) : a ∈ l := by
  obtain ⟨before, block, rfl, -, -⟩ := currentStart_eq_some.mp h
  simp

end CardScope.Library
