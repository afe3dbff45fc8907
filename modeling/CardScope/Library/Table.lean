import Mathlib

/-! # Keyed tables

A table is a list of rows together with the fact that no two rows share a primary
key, newest row first. The operations are the statements a relational store offers:
insert, insert or replace, update, upsert and delete.
-/

set_option linter.unusedSectionVars false
namespace CardScope.Library

/-- Rows identified by a primary key. -/
structure Table (ρ : Type*) {κ : Type*} (key : ρ → κ) where
  rows : List ρ
  nodup : (rows.map key).Nodup

namespace Table

variable {ρ κ : Type*} {key : ρ → κ}

theorem ext_rows {s t : Table ρ key} (h : s.rows = t.rows) : s = t := by
  cases s
  cases t
  cases h
  rfl

instance [DecidableEq ρ] : DecidableEq (Table ρ key) := fun s t =>
  decidable_of_iff (s.rows = t.rows) ⟨ext_rows, congrArg rows⟩

instance : Membership ρ (Table ρ key) := ⟨fun t r => r ∈ t.rows⟩

theorem mem_def {t : Table ρ key} {r : ρ} : r ∈ t ↔ r ∈ t.rows := Iff.rfl

theorem eq_of_key {t : Table ρ key} {r s : ρ} (hr : r ∈ t) (hs : s ∈ t) (h : key r = key s) :
    r = s :=
  List.inj_on_of_nodup_map t.nodup hr hs h

def empty : Table ρ key := ⟨[], List.nodup_nil⟩

@[simp] theorem rows_empty : (empty : Table ρ key).rows = [] := rfl

@[simp] theorem not_mem_empty (r : ρ) : r ∉ (empty : Table ρ key) := List.not_mem_nil

/-- Delete every row on which `p` fails. -/
def keep (t : Table ρ key) (p : ρ → Bool) : Table ρ key :=
  ⟨t.rows.filter p, (List.filter_sublist.map key).nodup t.nodup⟩

@[simp] theorem mem_keep {t : Table ρ key} {p : ρ → Bool} {r : ρ} :
    r ∈ t.keep p ↔ r ∈ t ∧ p r := List.mem_filter

variable [DecidableEq κ]

def find? (t : Table ρ key) (k : κ) : Option ρ := t.rows.find? (fun r => key r = k)

@[simp] theorem find?_empty (k : κ) : (empty : Table ρ key).find? k = none := rfl

theorem find?_eq_some {t : Table ρ key} {k : κ} {r : ρ} :
    t.find? k = some r ↔ r ∈ t ∧ key r = k := by
  constructor
  · intro h
    exact ⟨List.mem_of_find?_eq_some h, by simpa using List.find?_some h⟩
  · rintro ⟨hr, rfl⟩
    cases hf : t.find? (key r) with
    | none =>
      have hn := List.find?_eq_none.mp hf r hr
      simp at hn
    | some s =>
      have hs : key s = key r := by simpa using List.find?_some hf
      rw [eq_of_key (List.mem_of_find?_eq_some hf) hr hs]

theorem find?_eq_none {t : Table ρ key} {k : κ} : t.find? k = none ↔ ∀ r ∈ t, key r ≠ k := by
  simp only [find?, List.find?_eq_none, decide_eq_true_eq]
  rfl

theorem find?_keep (t : Table ρ key) (p : ρ → Bool) (k : κ) :
    (t.keep p).find? k = (t.find? k).filter p := by
  apply Option.ext
  intro r
  simp only [find?_eq_some, mem_keep, Option.filter_eq_some_iff]
  constructor
  · rintro ⟨⟨hr, hp⟩, hk⟩
    exact ⟨⟨hr, hk⟩, hp⟩
  · rintro ⟨⟨hr, hk⟩, hp⟩
    exact ⟨⟨hr, hp⟩, hk⟩

theorem filter_key (t : Table ρ key) (k : κ) :
    t.rows.filter (fun r => key r = k) = (t.find? k).toList := by
  obtain ⟨rows, nodup⟩ := t
  simp only [find?]
  induction rows with
  | nil => rfl
  | cons r rs ih =>
    rw [List.map_cons, List.nodup_cons] at nodup
    by_cases h : key r = k
    · have hrest : rs.filter (fun s => key s = k) = [] :=
        List.filter_eq_nil_iff.mpr (fun s hs he =>
          nodup.1 (List.mem_map.mpr ⟨s, hs, (of_decide_eq_true he).trans h.symm⟩))
      rw [List.filter_cons_of_pos (by simpa using h), List.find?_cons_of_pos (by simpa using h), hrest]
      rfl
    · rw [List.filter_cons_of_neg (by simpa using h), List.find?_cons_of_neg (by simpa using h)]
      exact ih nodup.2

def HasKey (t : Table ρ key) (k : κ) : Prop := ∃ r ∈ t.rows, key r = k

instance (t : Table ρ key) (k : κ) : Decidable (t.HasKey k) :=
  inferInstanceAs (Decidable (∃ r ∈ t.rows, key r = k))

theorem find?_eq_none_iff {t : Table ρ key} {k : κ} : t.find? k = none ↔ ¬ t.HasKey k := by
  rw [find?_eq_none]
  simp [HasKey, mem_def]

/-- INSERT of a row whose key is free. -/
def insert (t : Table ρ key) (r : ρ) (h : ¬ t.HasKey (key r)) : Table ρ key :=
  ⟨r :: t.rows, by
    rw [List.map_cons, List.nodup_cons]
    refine ⟨fun hm => h ?_, t.nodup⟩
    obtain ⟨s, hs, he⟩ := List.mem_map.mp hm
    exact ⟨s, hs, he⟩⟩

@[simp] theorem rows_insert (t : Table ρ key) (r : ρ) (h : ¬ t.HasKey (key r)) :
    (t.insert r h).rows = r :: t.rows := rfl

@[simp] theorem mem_insert {t : Table ρ key} {r s : ρ} {h : ¬ t.HasKey (key r)} :
    s ∈ t.insert r h ↔ s = r ∨ s ∈ t := List.mem_cons

theorem find?_insert (t : Table ρ key) (r : ρ) (h : ¬ t.HasKey (key r)) (k : κ) :
    (t.insert r h).find? k = if key r = k then some r else t.find? k := by
  simp only [find?, rows_insert, List.find?_cons]
  by_cases hk : key r = k <;> simp [hk]

/-- INSERT OR REPLACE. -/
def put (t : Table ρ key) (r : ρ) : Table ρ key :=
  (t.keep (fun s => key s ≠ key r)).insert r (by
    rintro ⟨s, hs, he⟩
    have hne := (mem_keep.mp hs).2
    simp [he] at hne)

@[simp] theorem mem_put {t : Table ρ key} {r s : ρ} :
    s ∈ t.put r ↔ s = r ∨ s ∈ t ∧ key s ≠ key r := by
  simp [put]

theorem find?_put (t : Table ρ key) (r : ρ) (k : κ) :
    (t.put r).find? k = if key r = k then some r else t.find? k := by
  rw [put, find?_insert]
  split_ifs with hk
  · rfl
  · apply Option.ext
    intro s
    simp only [find?_eq_some, mem_keep, decide_eq_true_eq, ne_eq]
    constructor
    · rintro ⟨⟨hs, -⟩, rfl⟩
      exact ⟨hs, rfl⟩
    · rintro ⟨hs, rfl⟩
      exact ⟨⟨hs, fun h => hk h.symm⟩, rfl⟩

/-- UPDATE of all rows, by a map that leaves keys alone. -/
def update (t : Table ρ key) (f : ρ → ρ) (hf : ∀ r, key (f r) = key r) : Table ρ key :=
  ⟨t.rows.map f, by
    rw [List.map_map, show key ∘ f = key from funext hf]
    exact t.nodup⟩

@[simp] theorem mem_update {t : Table ρ key} {f : ρ → ρ} {hf : ∀ r, key (f r) = key r} {s : ρ} :
    s ∈ t.update f hf ↔ ∃ r ∈ t, f r = s := List.mem_map

/-- UPDATE of the row with key `k`. -/
def modify (t : Table ρ key) (k : κ) (f : ρ → ρ) (hf : ∀ r, key (f r) = key r) : Table ρ key :=
  t.update (fun r => if key r = k then f r else r) (fun r => by
    by_cases h : key r = k <;> simp [h, hf])

theorem mem_modify {t : Table ρ key} {k : κ} {f : ρ → ρ} {hf : ∀ r, key (f r) = key r} {s : ρ} :
    s ∈ t.modify k f hf ↔ ∃ r ∈ t, s = if key r = k then f r else r := by
  simp only [modify, mem_update, eq_comm]

theorem find?_modify (t : Table ρ key) (k : κ) (f : ρ → ρ) (hf : ∀ r, key (f r) = key r) (l : κ) :
    (t.modify k f hf).find? l = (t.find? l).map (fun r => if k = l then f r else r) := by
  apply Option.ext
  intro s
  simp only [find?_eq_some, mem_modify, Option.map_eq_some_iff]
  constructor
  · rintro ⟨⟨r, hr, rfl⟩, hl⟩
    by_cases h : key r = k
    · rw [if_pos h, hf] at hl
      exact ⟨r, ⟨hr, hl⟩, by rw [if_pos h, if_pos (h.symm.trans hl)]⟩
    · rw [if_neg h] at hl
      exact ⟨r, ⟨hr, hl⟩, by rw [if_neg h, if_neg (fun e => h (hl.trans e.symm))]⟩
  · rintro ⟨r, ⟨hr, rfl⟩, rfl⟩
    by_cases h : key r = k
    · exact ⟨⟨r, hr, by simp [h]⟩, by simp [h, hf]⟩
    · exact ⟨⟨r, hr, by simp [h, Ne.symm h]⟩, by simp [Ne.symm h]⟩

theorem hasKey_modify {t : Table ρ key} {k : κ} {f : ρ → ρ} {hf : ∀ r, key (f r) = key r} {l : κ} :
    (t.modify k f hf).HasKey l ↔ t.HasKey l := by
  rw [← not_iff_not, ← find?_eq_none_iff, ← find?_eq_none_iff, find?_modify]
  simp

theorem modify_of_not_hasKey (t : Table ρ key) {k : κ} (f : ρ → ρ) (hf : ∀ r, key (f r) = key r)
    (h : ¬ t.HasKey k) : t.modify k f hf = t := by
  apply ext_rows
  conv_rhs => rw [← List.map_id t.rows]
  apply List.map_congr_left
  intro r hr
  rw [if_neg (fun hk => h ⟨r, hr, hk⟩), id_eq]

/-- INSERT … ON CONFLICT DO UPDATE. -/
def upsert (t : Table ρ key) (r : ρ) (merge : ρ → ρ) (hm : ∀ s, key (merge s) = key s) :
    Table ρ key :=
  if h : t.HasKey (key r) then t.modify (key r) merge hm else t.insert r h

theorem find?_upsert (t : Table ρ key) (r : ρ) (merge : ρ → ρ) (hm : ∀ s, key (merge s) = key s)
    (k : κ) : (t.upsert r merge hm).find? k =
      if key r = k then some ((t.find? k).elim r merge) else t.find? k := by
  unfold upsert
  split_ifs with h hk hk
  · obtain ⟨s, hs, he⟩ := h
    have hfind : t.find? k = some s := find?_eq_some.mpr ⟨hs, he.trans hk⟩
    rw [find?_modify, hfind]
    simp [hk]
  · rw [find?_modify]
    simp [hk]
  · rw [find?_insert, if_pos hk, find?_eq_none_iff.mpr (hk ▸ h)]
    rfl
  · rw [find?_insert, if_neg hk]

theorem hasKey_upsert {t : Table ρ key} {r : ρ} {merge : ρ → ρ}
    {hm : ∀ s, key (merge s) = key s} {k : κ} :
    (t.upsert r merge hm).HasKey k ↔ key r = k ∨ t.HasKey k := by
  rw [← not_iff_not, ← find?_eq_none_iff, find?_upsert, not_or, ← find?_eq_none_iff]
  by_cases hk : key r = k <;> simp [hk]

section Only

variable {q : κ → Bool}

def only (q : κ → Bool) (t : Table ρ key) : Table ρ key := t.keep (fun r => q (key r))

@[simp] theorem mem_only {t : Table ρ key} {r : ρ} : r ∈ t.only q ↔ r ∈ t ∧ q (key r) := mem_keep

theorem hasKey_only {t : Table ρ key} {k : κ} (hk : q k = true) :
    (t.only q).HasKey k ↔ t.HasKey k := by
  constructor
  · rintro ⟨r, hr, he⟩
    exact ⟨r, (mem_only.mp hr).1, he⟩
  · rintro ⟨r, hr, rfl⟩
    exact ⟨r, mem_only.mpr ⟨hr, hk⟩, rfl⟩

theorem find?_only {t : Table ρ key} {k : κ} (hk : q k = true) : (t.only q).find? k = t.find? k := by
  rw [only, find?_keep]
  cases hf : t.find? k with
  | none => rfl
  | some r => simp [(find?_eq_some.mp hf).2, hk]

theorem only_insert {t : Table ρ key} {r : ρ} (h : ¬ t.HasKey (key r)) (hk : q (key r) = true) :
    (t.insert r h).only q = (t.only q).insert r (fun hr => h ((hasKey_only hk).mp hr)) :=
  ext_rows (by simp [only, keep, hk])

theorem only_insert_of_other {t : Table ρ key} {r : ρ} (h : ¬ t.HasKey (key r))
    (hk : q (key r) = false) : (t.insert r h).only q = t.only q :=
  ext_rows (by simp [only, keep, hk])

theorem only_keep (t : Table ρ key) (p : ρ → Bool) : (t.keep p).only q = (t.only q).keep p :=
  ext_rows (by simp only [only, keep, List.filter_filter, Bool.and_comm])

theorem only_put {t : Table ρ key} {r : ρ} (hk : q (key r) = true) :
    (t.put r).only q = (t.only q).put r := by
  apply ext_rows
  rw [put, only_insert _ hk, put, rows_insert, rows_insert, only_keep]

theorem only_put_of_other {t : Table ρ key} {r : ρ} (hk : q (key r) = false) :
    (t.put r).only q = t.only q := by
  rw [put, only_insert_of_other _ hk]
  apply ext_rows
  simp only [only, keep, List.filter_filter]
  apply List.filter_congr
  intro s _
  by_cases hs : key s = key r <;> simp [hs, hk]

theorem only_modify (t : Table ρ key) (k : κ) (f : ρ → ρ) (hf : ∀ r, key (f r) = key r) :
    (t.modify k f hf).only q = (t.only q).modify k f hf := by
  apply ext_rows
  simp only [only, keep, modify, update, List.filter_map, Function.comp_def]
  have hsame : ∀ r, key (if key r = k then f r else r) = key r := by
    intro r
    split_ifs
    · exact hf r
    · rfl
  simp only [hsame]

theorem only_modify_of_other (t : Table ρ key) {k : κ} (f : ρ → ρ) (hf : ∀ r, key (f r) = key r)
    (hk : q k = false) : (t.modify k f hf).only q = t.only q := by
  rw [only_modify]
  apply ext_rows
  conv_rhs => rw [← List.map_id (t.only q).rows]
  apply List.map_congr_left
  intro r hr
  have hq : q (key r) = true := (mem_only.mp hr).2
  rw [if_neg (fun he => by simp [he, hk] at hq), id]

theorem only_upsert {t : Table ρ key} {r : ρ} {merge : ρ → ρ} {hm : ∀ s, key (merge s) = key s}
    (hk : q (key r) = true) : (t.upsert r merge hm).only q = (t.only q).upsert r merge hm := by
  unfold upsert
  by_cases h : t.HasKey (key r)
  · rw [dif_pos h, dif_pos ((hasKey_only hk).mpr h), only_modify]
  · rw [dif_neg h, dif_neg (fun hr => h ((hasKey_only hk).mp hr)), only_insert h hk]

theorem only_upsert_of_other {t : Table ρ key} {r : ρ} {merge : ρ → ρ}
    {hm : ∀ s, key (merge s) = key s} (hk : q (key r) = false) :
    (t.upsert r merge hm).only q = t.only q := by
  unfold upsert
  split_ifs with h
  · exact only_modify_of_other t merge hm hk
  · exact only_insert_of_other h hk

end Only

section Sum

variable {M : Type*}

def sum [AddCommMonoid M] (t : Table ρ key) (f : ρ → M) : M := (t.rows.map f).sum

@[simp] theorem sum_empty [AddCommMonoid M] (f : ρ → M) : (empty : Table ρ key).sum f = 0 := rfl

@[simp] theorem sum_insert [AddCommMonoid M] (t : Table ρ key) (r : ρ)
    (h : ¬ t.HasKey (key r)) (f : ρ → M) : (t.insert r h).sum f = f r + t.sum f := by
  simp [sum]

theorem sum_congr [AddCommMonoid M] {t : Table ρ key} {f g : ρ → M} (h : ∀ r ∈ t, f r = g r) :
    t.sum f = t.sum g :=
  congrArg List.sum (List.map_congr_left h)

theorem sum_keep_add [AddCommMonoid M] (t : Table ρ key) (p : ρ → Bool) (f : ρ → M) :
    (t.keep p).sum f + (t.keep (fun r => !p r)).sum f = t.sum f := by
  simp only [sum, keep]
  induction t.rows with
  | nil => simp
  | cons r rs ih =>
    by_cases h : p r
    · simp [h, add_assoc, ih]
    · simp only [List.filter_cons, h, Bool.not_false, List.map_cons, List.sum_cons, ← ih]
      exact add_left_comm _ _ _

theorem sum_keep_of_zero [AddCommMonoid M] (t : Table ρ key) (p : ρ → Bool) (f : ρ → M)
    (h : ∀ r ∈ t, p r = false → f r = 0) : (t.keep p).sum f = t.sum f := by
  have hdrop : (t.keep (fun r => !p r)).sum f = 0 := by
    apply List.sum_eq_zero
    intro x hx
    obtain ⟨r, hr, rfl⟩ := List.mem_map.mp hx
    obtain ⟨hr, hp⟩ := List.mem_filter.mp hr
    exact h r hr (by simpa using hp)
  rw [← sum_keep_add t p f, hdrop, add_zero]

theorem sum_eq_find?_add [AddCommMonoid M] (t : Table ρ key) (k : κ) (f : ρ → M) :
    t.sum f = (t.find? k).elim 0 f + (t.keep (fun s => key s ≠ k)).sum f := by
  obtain ⟨rows, nodup⟩ := t
  simp only [sum, keep, find?]
  induction rows with
  | nil => simp
  | cons r rs ih =>
    rw [List.map_cons, List.nodup_cons] at nodup
    by_cases h : key r = k
    · have hall : ∀ s ∈ rs, key s ≠ k := fun s hs he =>
        nodup.1 (List.mem_map.mpr ⟨s, hs, he.trans h.symm⟩)
      have hrest : rs.filter (fun s => key s ≠ k) = rs :=
        List.filter_eq_self.mpr (fun s hs => by simpa using hall s hs)
      rw [List.filter_cons_of_neg (by simp [h]), hrest]
      simp [h]
    · rw [List.filter_cons_of_pos (by simpa using h), List.find?_cons_of_neg (by simpa using h)]
      simp only [List.map_cons, List.sum_cons, ih nodup.2]
      exact add_left_comm _ _ _

theorem sum_put [AddCommGroup M] (t : Table ρ key) (r : ρ) (f : ρ → M) :
    (t.put r).sum f = t.sum f - (t.find? (key r)).elim 0 f + f r := by
  rw [put, sum_insert, sum_eq_find?_add t (key r) f]
  abel

theorem sum_modify [AddCommGroup M] (t : Table ρ key) (k : κ) (f : ρ → ρ)
    (hf : ∀ r, key (f r) = key r) (g : ρ → M) (s : ρ) (hs : t.find? k = some s) :
    (t.modify k f hf).sum g = t.sum g - g s + g (f s) := by
  have hrest : (t.modify k f hf).keep (fun r => key r ≠ k) = t.keep (fun r => key r ≠ k) := by
    apply ext_rows
    simp only [keep, modify, update, List.filter_map, Function.comp_def]
    have hsame : (fun r => decide (key (if key r = k then f r else r) ≠ k)) =
        fun r => decide (key r ≠ k) := by
      funext r
      by_cases h : key r = k <;> simp [h, hf]
    rw [hsame]
    conv_rhs => rw [← List.map_id (t.rows.filter _)]
    apply List.map_congr_left
    intro r hr
    have hne : key r ≠ k := by simpa using (List.mem_filter.mp hr).2
    simp [hne]
  rw [sum_eq_find?_add (t.modify k f hf) k g, sum_eq_find?_add t k g, hrest, find?_modify, hs]
  simp only [Option.map_some, Option.elim_some, if_true]
  abel

theorem sum_upsert [AddCommGroup M] (t : Table ρ key) (r : ρ) (merge : ρ → ρ)
    (hm : ∀ s, key (merge s) = key s) (f : ρ → M)
    (hf : ∀ s, key s = key r → f (merge s) = f s + f r) :
    (t.upsert r merge hm).sum f = t.sum f + f r := by
  unfold upsert
  split_ifs with h
  · obtain ⟨s, hs, he⟩ := h
    rw [sum_modify t (key r) merge hm f s (find?_eq_some.mpr ⟨hs, he⟩), hf s he]
    abel
  · rw [sum_insert, add_comm]

end Sum

end Table

end CardScope.Library
