import Mathlib

/-! # Sums over the adjacent pairs of a chronological list

Observations arrive in any order and are summed over neighbouring pairs in time
order. Inserting one observation splits a single pair; `Linked` says that a keyed
store of pair weights, one under each right end, follows that splitting.
-/

set_option linter.unusedSectionVars false
namespace CardScope.Library

section Chains

variable {α M : Type*}

/-- `a` and `b` stand next to each other in the list. -/
def Adjacent (a b : α) : List α → Prop
  | x :: y :: l => (x = a ∧ y = b) ∨ Adjacent a b (y :: l)
  | _ => False

/-- The sum of a weight over all adjacent pairs. -/
def chainSum [AddCommMonoid M] (w : α → α → M) : List α → M
  | a :: b :: l => w a b + chainSum w (b :: l)
  | _ => 0

def bridge [Zero M] (w : α → α → M) : Option α → Option α → M
  | some a, some b => w a b
  | _, _ => 0

theorem adjacent_append {a b : α} (l₁ l₂ : List α) : Adjacent a b (l₁ ++ l₂) ↔
    Adjacent a b l₁ ∨ (l₁.getLast? = some a ∧ l₂.head? = some b) ∨ Adjacent a b l₂ := by
  induction l₁ with
  | nil => simp [Adjacent]
  | cons x l ih =>
    cases l with
    | nil =>
      cases l₂ with
      | nil => simp [Adjacent]
      | cons y l₂ => simp [Adjacent]
    | cons y l =>
      simp only [List.cons_append, Adjacent, List.getLast?_cons_cons] at ih ⊢
      rw [ih, or_assoc]

theorem Adjacent.mem {a b : α} {l : List α} (h : Adjacent a b l) : a ∈ l ∧ b ∈ l := by
  induction l with
  | nil => exact h.elim
  | cons x l ih =>
    cases l with
    | nil => exact h.elim
    | cons y l =>
      rcases h with ⟨rfl, rfl⟩ | h
      · simp
      · exact ⟨List.mem_cons_of_mem _ (ih h).1, List.mem_cons_of_mem _ (ih h).2⟩

theorem Adjacent.right_mem_tail {a b c : α} {l : List α} (h : Adjacent a b (c :: l)) : b ∈ l := by
  cases l with
  | nil => exact h.elim
  | cons y l =>
    rcases h with ⟨-, rfl⟩ | h
    · exact List.mem_cons_self
    · exact h.mem.2

theorem Adjacent.cons {a b : α} {l : List α} (h : Adjacent a b l) (c : α) :
    Adjacent a b (c :: l) := by
  cases l with
  | nil => exact h.elim
  | cons y l => exact .inr h

theorem adjacent_cons_head {c d : α} {l : List α} (h : l.head? = some d) :
    Adjacent c d (c :: l) := by
  cases l with
  | nil => simp at h
  | cons y l => exact .inl ⟨rfl, by simpa using h⟩

theorem chainSum_append [AddCommMonoid M] (w : α → α → M) (l₁ l₂ : List α) :
    chainSum w (l₁ ++ l₂) = chainSum w l₁ + bridge w l₁.getLast? l₂.head? + chainSum w l₂ := by
  induction l₁ with
  | nil => simp [chainSum, bridge]
  | cons x l ih =>
    cases l with
    | nil =>
      cases l₂ with
      | nil => simp [chainSum, bridge]
      | cons y l₂ => simp [chainSum, bridge]
    | cons y l =>
      simp only [List.cons_append, chainSum, List.getLast?_cons_cons] at ih ⊢
      rw [ih, add_assoc, add_assoc, add_assoc]

theorem chainSum_cons [AddCommMonoid M] (w : α → α → M) (a : α) (l : List α) :
    chainSum w (a :: l) = bridge w (some a) l.head? + chainSum w l := by
  cases l <;> simp [chainSum, bridge]

/-- An insertion replaces one pair by two. -/
theorem chainSum_insert [AddCommGroup M] (w : α → α → M) (l₁ l₂ : List α) (p : α) :
    chainSum w (l₁ ++ p :: l₂) = chainSum w (l₁ ++ l₂) - bridge w l₁.getLast? l₂.head? +
      bridge w l₁.getLast? (some p) + bridge w (some p) l₂.head? := by
  rw [chainSum_append, chainSum_append, chainSum_cons, List.head?_cons]
  abel

theorem chainSum_eq_zero [AddCommMonoid M] {w : α → α → M} {l : List α}
    (h : ∀ a ∈ l, ∀ b, w a b = 0) : chainSum w l = 0 := by
  induction l with
  | nil => rfl
  | cons x l ih =>
    cases l with
    | nil => rfl
    | cons y l =>
      rw [chainSum, h x List.mem_cons_self, zero_add]
      exact ih (fun a ha => h a (List.mem_cons_of_mem _ ha))

theorem chainSum_congr [AddCommMonoid M] {w v : α → α → M} {l : List α}
    (h : ∀ a b, Adjacent a b l → w a b = v a b) : chainSum w l = chainSum v l := by
  induction l with
  | nil => rfl
  | cons x l ih =>
    cases l with
    | nil => rfl
    | cons y l =>
      rw [chainSum, chainSum, h x y (.inl ⟨rfl, rfl⟩), ih (fun a b hab => h a b (.inr hab))]

theorem chainSum_map {β : Type*} [AddCommMonoid M] (w : β → β → M) (f : α → β) (l : List α) :
    chainSum w (l.map f) = chainSum (fun a b => w (f a) (f b)) l := by
  induction l with
  | nil => rfl
  | cons x l ih =>
    cases l with
    | nil => rfl
    | cons y l =>
      rw [List.map_cons, List.map_cons, chainSum, ← List.map_cons, ih, chainSum]

theorem map_chainSum {N : Type*} [AddCommMonoid M] [AddCommMonoid N] (φ : M →+ N)
    (w : α → α → M) (l : List α) : φ (chainSum w l) = chainSum (fun a b => φ (w a b)) l := by
  induction l with
  | nil => exact map_zero φ
  | cons x l ih =>
    cases l with
    | nil => exact map_zero φ
    | cons y l => rw [chainSum, map_add, ih, chainSum]

end Chains

section Chronological

variable {α M : Type*} (time : α → ℤ)

def Ascending (l : List α) : Prop := l.Pairwise (fun a b => time a < time b)

def chronological (l : List α) : List α := l.insertionSort (fun a b => time a ≤ time b)

variable {time}

theorem mem_chronological {a : α} {l : List α} : a ∈ chronological time l ↔ a ∈ l :=
  List.mem_insertionSort _

theorem Ascending.of_append_left {l₁ l₂ : List α} (h : Ascending time (l₁ ++ l₂)) :
    Ascending time l₁ := (List.pairwise_append.mp h).1

theorem Ascending.insert {l₁ l₂ : List α} {p : α} (h : Ascending time (l₁ ++ l₂))
    (h₁ : ∀ x ∈ l₁, time x < time p) (h₂ : ∀ x ∈ l₂, time p < time x) :
    Ascending time (l₁ ++ p :: l₂) := by
  obtain ⟨hl, hr, hc⟩ := List.pairwise_append.mp h
  refine List.pairwise_append.mpr ⟨hl, List.pairwise_cons.mpr ⟨h₂, hr⟩, fun a ha b hb => ?_⟩
  rcases List.mem_cons.mp hb with rfl | hb
  · exact h₁ a ha
  · exact hc a ha b hb

theorem chronological_cons (p : α) (l : List α) (hp : ∀ x ∈ l, time x ≠ time p) :
    ∃ l₁ l₂, chronological time l = l₁ ++ l₂ ∧ chronological time (p :: l) = l₁ ++ p :: l₂ ∧
      (∀ x ∈ l₁, time x < time p) ∧ ∀ x ∈ l₂, time p < time x := by
  let s := chronological time l
  let early : α → Bool := fun b => ¬ time p ≤ time b
  have hsorted : s.Pairwise (fun a b => time a ≤ time b) :=
    List.pairwise_insertionSort (fun a b => time a ≤ time b) l
  have hne : ∀ x ∈ s, time x ≠ time p := fun x hx => hp x (mem_chronological.mp hx)
  refine ⟨s.takeWhile early, s.dropWhile early, (List.takeWhile_append_dropWhile).symm, ?_, ?_, ?_⟩
  · exact List.insertionSort_cons_eq_take_drop (fun a b => time a ≤ time b) p l
  · intro x hx
    simpa [early] using List.mem_takeWhile_imp hx
  · intro x hx
    have hxs : x ∈ s := (List.dropWhile_sublist _).subset hx
    have hdrop : (s.dropWhile early).Pairwise (fun a b => time a ≤ time b) :=
      hsorted.sublist (List.dropWhile_sublist _)
    have hge : time p ≤ time x := by
      cases hd : s.dropWhile early with
      | nil => simp [hd] at hx
      | cons y l₂ =>
        have hy : time p ≤ time y := by
          have hhead := List.head?_dropWhile_not early s
          rw [hd] at hhead
          simpa [early] using hhead
        rw [hd] at hx hdrop
        rcases List.mem_cons.mp hx with rfl | hx
        · exact hy
        · exact hy.trans ((List.pairwise_cons.mp hdrop).1 x hx)
    exact lt_of_le_of_ne hge (Ne.symm (hne x hxs))

theorem chronological_ascending {l : List α} (h : (l.map time).Nodup) :
    Ascending time (chronological time l) := by
  induction l with
  | nil => exact List.Pairwise.nil
  | cons p l ih =>
    rw [List.map_cons, List.nodup_cons] at h
    have hp : ∀ x ∈ l, time x ≠ time p := fun x hx he => h.1 (List.mem_map.mpr ⟨x, hx, he⟩)
    obtain ⟨l₁, l₂, hl, hpl, h₁, h₂⟩ := chronological_cons p l hp
    rw [hpl]
    exact Ascending.insert (hl ▸ ih h.2) h₁ h₂

theorem Ascending.lt_of_adjacent {l : List α} (h : Ascending time l) {a b : α}
    (hab : Adjacent a b l) : time a < time b := by
  induction l with
  | nil => exact hab.elim
  | cons x l ih =>
    cases l with
    | nil => exact hab.elim
    | cons y l =>
      obtain ⟨hx, hl⟩ := List.pairwise_cons.mp h
      rcases hab with ⟨rfl, rfl⟩ | hab
      · exact hx _ (List.mem_cons_self)
      · exact ih hl hab

theorem Ascending.not_between {l : List α} (h : Ascending time l) {a b d : α}
    (hab : Adjacent a b l) (hd : d ∈ l) : ¬ (time a < time d ∧ time d < time b) := by
  induction l with
  | nil => exact hab.elim
  | cons x l ih =>
    cases l with
    | nil => exact hab.elim
    | cons y l =>
      obtain ⟨hx, hl⟩ := List.pairwise_cons.mp h
      rintro ⟨hlo, hhi⟩
      rcases hab with ⟨rfl, rfl⟩ | hab
      · rcases List.mem_cons.mp hd with rfl | hd
        · exact lt_irrefl _ hlo
        · rcases List.mem_cons.mp hd with rfl | hd
          · exact lt_irrefl _ hhi
          · exact lt_asymm hhi ((List.pairwise_cons.mp hl).1 d hd)
      · rcases List.mem_cons.mp hd with rfl | hd
        · exact lt_asymm hlo (hx a hab.mem.1)
        · exact ih hl hab hd ⟨hlo, hhi⟩

theorem Ascending.map {β : Type*} {time' : β → ℤ} {l : List α} (h : Ascending time l) {f : α → β}
    (hf : ∀ a, time' (f a) = time a) : Ascending time' (l.map f) := by
  refine List.pairwise_map.mpr (h.imp (fun hab => ?_))
  rw [hf, hf]
  exact hab

theorem Ascending.le_getLast {l : List α} (h : Ascending time l) {a x : α}
    (ha : l.getLast? = some a) (hx : x ∈ l) : time x ≤ time a := by
  obtain ⟨m, rfl⟩ := List.getLast?_eq_some_iff.mp ha
  rcases List.mem_append.mp hx with hx | hx
  · exact ((List.pairwise_append.mp h).2.2 x hx a (by simp)).le
  · simp_all

theorem Ascending.getLast?_eq {l : List α} (h : Ascending time l) {a : α} (ha : a ∈ l)
    (hmax : ∀ x ∈ l, time x ≤ time a) : l.getLast? = some a := by
  obtain ⟨l₁, l₂, rfl⟩ := List.append_of_mem ha
  cases l₂ with
  | nil => exact List.getLast?_concat
  | cons y l₂ =>
    have hlt : time a < time y :=
      (List.pairwise_cons.mp (List.pairwise_append.mp h).2.1).1 y List.mem_cons_self
    exact absurd (hmax y (by simp)) (not_le.mpr hlt)

theorem Ascending.head_le {l : List α} (h : Ascending time l) {a x : α}
    (ha : l.head? = some a) (hx : x ∈ l) : time a ≤ time x := by
  cases l with
  | nil => simp at ha
  | cons y l =>
    obtain rfl : y = a := by simpa using ha
    rcases List.mem_cons.mp hx with rfl | hx
    · exact le_rfl
    · exact ((List.pairwise_cons.mp h).1 x hx).le

theorem Ascending.inj {l : List α} (h : Ascending time l) {a b : α} (ha : a ∈ l) (hb : b ∈ l)
    (hab : time a = time b) : a = b :=
  List.inj_on_of_nodup_map (List.pairwise_map.mpr (h.imp ne_of_lt)) ha hb hab

theorem Ascending.ext {l₁ l₂ : List α} (h₁ : Ascending time l₁) (h₂ : Ascending time l₂)
    (h : ∀ a, a ∈ l₁ ↔ a ∈ l₂) : l₁ = l₂ := by
  have hirr : Std.Irrefl (fun a b : α => time a < time b) := ⟨fun a => lt_irrefl (time a)⟩
  have hasym : Std.Antisymm (fun a b : α => time a < time b) :=
    ⟨fun a b hab hba => absurd hab (lt_asymm hba)⟩
  exact List.Pairwise.eq_of_mem_iff h₁ h₂ h

theorem Ascending.filter_or {l : List α} (h : Ascending time l) {t : ℤ} {p q : α → Bool}
    (hp : ∀ x ∈ l, p x → time x ≤ t) (hq : ∀ x ∈ l, q x → t < time x) :
    l.filter (fun x => p x || q x) = l.filter p ++ l.filter q := by
  refine Ascending.ext (List.Pairwise.filter _ h) (List.pairwise_append.mpr
    ⟨List.Pairwise.filter _ h, List.Pairwise.filter _ h, fun x hx y hy => ?_⟩) (fun x => ?_)
  · obtain ⟨hx, hpx⟩ := List.mem_filter.mp hx
    obtain ⟨hy, hqy⟩ := List.mem_filter.mp hy
    exact (hp x hx hpx).trans_lt (hq y hy hqy)
  · rw [List.mem_append, List.mem_filter, List.mem_filter, List.mem_filter, Bool.or_eq_true,
      and_or_left]

/-- Weights bounded by the time they span add up to at most the time up to `hi`. -/
theorem chainSum_le_sub [AddCommGroup M] [PartialOrder M] [IsOrderedAddMonoid M] {w : α → α → M}
    {t : α → M} {a : α} {l : List α} {hi : M}
    (hw : ∀ x y, Adjacent x y (a :: l) → w x y ≤ t y - t x) (hhi : ∀ x ∈ a :: l, t x ≤ hi) :
    chainSum w (a :: l) ≤ hi - t a := by
  induction l generalizing a with
  | nil => simpa [chainSum] using hhi a (by simp)
  | cons b l ih =>
    calc chainSum w (a :: b :: l) = w a b + chainSum w (b :: l) := rfl
      _ ≤ (t b - t a) + (hi - t b) :=
        add_le_add (hw a b (.inl ⟨rfl, rfl⟩))
          (ih (fun x y h => hw x y (.inr h)) (fun x hx => hhi x (List.mem_cons_of_mem _ hx)))
      _ = hi - t a := by abel

/-- Such weights never exceed the span of a window that holds all entries. -/
theorem chainSum_le_span [AddCommGroup M] [PartialOrder M] [IsOrderedAddMonoid M] {w : α → α → M}
    {t : α → M} {l : List α} {lo hi : M} (hlohi : lo ≤ hi)
    (hw : ∀ x y, Adjacent x y l → w x y ≤ t y - t x) (hl : ∀ x ∈ l, lo ≤ t x ∧ t x ≤ hi) :
    chainSum w l ≤ hi - lo := by
  cases l with
  | nil => simpa [chainSum] using hlohi
  | cons a l =>
    exact (chainSum_le_sub hw (fun x hx => (hl x hx).2)).trans
      (sub_le_sub_left (hl a (by simp)).1 hi)

/-- Entries may be dropped from a chain when they weigh nothing and nothing reaches over them. -/
theorem chainSum_filter [AddCommMonoid M] {w : α → α → M} (p : α → Bool) {l : List α}
    (hl : Ascending time l) (hsilent : ∀ x ∈ l, p x = false → ∀ y, w x y = 0)
    (hfar : ∀ a x, Adjacent a x l → p x = false → ∀ y, time x ≤ time y → w a y = 0) :
    chainSum w (l.filter p) = chainSum w l := by
  induction l with
  | nil => rfl
  | cons a l ih =>
    have hl' : Ascending time l := (List.pairwise_cons.mp hl).2
    cases l with
    | nil => cases hp : p a <;> simp [hp, chainSum]
    | cons x r =>
      have ih' := ih hl' (fun y hy => hsilent y (List.mem_cons_of_mem _ hy))
        (fun b y h => hfar b y (.inr h))
      cases ha : p a with
      | false =>
        rw [List.filter_cons_of_neg (by simp [ha]), ih', chainSum,
          hsilent a (by simp) ha, zero_add]
      | true =>
        rw [List.filter_cons_of_pos ha, chainSum_cons, ih', chainSum]
        congr 1
        cases hx : p x with
        | true => simp [hx, bridge]
        | false =>
          have hzero := hfar a x (.inl ⟨rfl, rfl⟩) hx
          rw [hzero x le_rfl]
          rw [List.filter_cons_of_neg (by simp [hx])]
          cases hr : (r.filter p).head? with
          | none => rfl
          | some y =>
            have hy : y ∈ r := (List.mem_filter.mp (List.mem_of_mem_head? hr)).1
            exact hzero y ((List.pairwise_cons.mp hl').1 y hy).le

end Chronological

section Latest

variable {α : Type*} {time : α → ℤ}

/-- The entry with the greatest time; the first of several. -/
def latest (time : α → ℤ) : List α → Option α
  | [] => none
  | a :: l =>
    match latest time l with
    | none => some a
    | some b => if time a < time b then some b else some a

/-- The entry with the least time; the first of several. -/
def earliest (time : α → ℤ) (l : List α) : Option α := latest (fun a => -time a) l

@[simp] theorem latest_eq_none {l : List α} : latest time l = none ↔ l = [] := by
  cases l with
  | nil => simp [latest]
  | cons a l =>
    simp only [latest, reduceCtorEq, iff_false]
    cases latest time l with
    | none => simp
    | some b => by_cases h : time a < time b <;> simp [h]

theorem latest_spec {l : List α} {m : α} (h : latest time l = some m) :
    m ∈ l ∧ ∀ a ∈ l, time a ≤ time m := by
  induction l generalizing m with
  | nil => simp [latest] at h
  | cons a l ih =>
    simp only [latest] at h
    cases hl : latest time l with
    | none =>
      obtain rfl : a = m := by simpa [hl] using h
      obtain rfl : l = [] := latest_eq_none.mp hl
      simp
    | some b =>
      obtain ⟨hb, hmax⟩ := ih hl
      simp only [hl] at h
      split_ifs at h with hab
      · obtain rfl : b = m := by simpa using h
        exact ⟨List.mem_cons_of_mem _ hb, List.forall_mem_cons.mpr ⟨hab.le, hmax⟩⟩
      · obtain rfl : a = m := by simpa using h
        exact ⟨List.mem_cons_self, List.forall_mem_cons.mpr
          ⟨le_rfl, fun x hx => (hmax x hx).trans (not_lt.mp hab)⟩⟩

theorem latest_filter (p : α → Bool) (hp : ∀ a b, p a → time a ≤ time b → p b) (l : List α) :
    latest time (l.filter p) = (latest time l).filter p := by
  induction l with
  | nil => rfl
  | cons a l ih =>
    cases ha : p a with
    | true =>
      rw [List.filter_cons_of_pos ha, latest, ih, latest]
      cases hl : latest time l with
      | none => simp [Option.filter, ha]
      | some b =>
        cases hb : p b with
        | true => by_cases hab : time a < time b <;> simp [Option.filter, hb, hab, ha]
        | false =>
          have hab : ¬ time a < time b := fun hlt => by
            have hpb := hp a b ha hlt.le
            simp [hb] at hpb
          simp [Option.filter, hb, hab, ha]
    | false =>
      rw [List.filter_cons_of_neg (by simp [ha]), ih, latest]
      cases hl : latest time l with
      | none => simp [Option.filter, ha]
      | some b =>
        by_cases hab : time a < time b
        · simp [Option.filter, hab]
        · have hb : p b = false := by
            by_contra hne
            have hpa := hp b a (by simpa using hne) (not_lt.mp hab)
            simp [ha] at hpa
          simp [Option.filter, hab, ha, hb]

@[simp] theorem earliest_eq_none {l : List α} : earliest time l = none ↔ l = [] := latest_eq_none

theorem earliest_spec {l : List α} {m : α} (h : earliest time l = some m) :
    m ∈ l ∧ ∀ a ∈ l, time m ≤ time a := by
  obtain ⟨hm, hmax⟩ := latest_spec h
  exact ⟨hm, fun a ha => neg_le_neg_iff.mp (hmax a ha)⟩

variable {ρ : Type*} {f : ρ → α} {rows : List ρ} {l : List α}

theorem latest_map_eq (hl : Ascending time l) (hmem : ∀ x, x ∈ l ↔ ∃ r ∈ rows, f r = x) :
    (latest (time ∘ f) rows).map f = l.getLast? := by
  cases hr : latest (time ∘ f) rows with
  | none =>
    obtain rfl : rows = [] := latest_eq_none.mp hr
    obtain rfl : l = [] := List.eq_nil_iff_forall_not_mem.mpr (fun x => by simp [hmem])
    rfl
  | some r =>
    obtain ⟨hrows, hmax⟩ := latest_spec hr
    have hfr : f r ∈ l := (hmem (f r)).mpr ⟨r, hrows, rfl⟩
    cases ha : l.getLast? with
    | none =>
      rw [List.getLast?_eq_none_iff.mp ha] at hfr
      exact absurd hfr List.not_mem_nil
    | some a =>
      have hal : a ∈ l := List.mem_of_getLast? ha
      obtain ⟨r', hr', rfl⟩ := (hmem a).mp hal
      have hle : time (f r') ≤ time (f r) := hmax r' hr'
      have hge : time (f r) ≤ time (f r') := hl.le_getLast ha hfr
      exact congrArg some (hl.inj hfr hal (le_antisymm hge hle))

theorem earliest_map_eq (hl : Ascending time l) (hmem : ∀ x, x ∈ l ↔ ∃ r ∈ rows, f r = x) :
    (earliest (time ∘ f) rows).map f = l.head? := by
  have hrev : Ascending (fun x => -time x) l.reverse := by
    refine List.pairwise_reverse.mpr (hl.imp (fun {a b} h => ?_))
    exact neg_lt_neg h
  have hlast : (earliest (time ∘ f) rows).map f = l.reverse.getLast? :=
    latest_map_eq hrev (fun x => by rw [List.mem_reverse, hmem])
  rw [hlast, List.getLast?_reverse]

end Latest

section Linked

variable {α ι β : Type*}

/-- A keyed store holds exactly the weights of the adjacent pairs, each under its right end. -/
structure Linked (id : α → ι) (w : α → α → β) (l : List α) (edges : ι → Option β) : Prop where
  stored : ∀ a b, Adjacent a b l → edges (id b) = some (w a b)
  only : ∀ i v, edges i = some v → ∃ a b, Adjacent a b l ∧ id b = i

variable {id : α → ι} {w : α → α → β} {l₁ l₂ : List α} {p : α} {edges edges' : ι → Option β}

theorem Linked.at_right (h : Linked id w (l₁ ++ l₂) edges) (hid : ((l₁ ++ l₂).map id).Nodup)
    {c : α} (hc : l₂.head? = some c) : edges (id c) = l₁.getLast?.map (fun a => w a c) := by
  cases ha : l₁.getLast? with
  | some a => exact h.stored a c ((adjacent_append l₁ l₂).mpr (.inr (.inl ⟨ha, hc⟩)))
  | none =>
    obtain rfl : l₁ = [] := List.getLast?_eq_none_iff.mp ha
    rw [Option.map_none]
    cases he : edges (id c) with
    | none => rfl
    | some v =>
      exfalso
      obtain ⟨a, b, hab, hb⟩ := h.only _ _ he
      rw [List.nil_append] at hab hid
      cases l₂ with
      | nil => simp at hc
      | cons y l =>
        obtain rfl : y = c := by simpa using hc
        rw [List.map_cons, List.nodup_cons] at hid
        exact hid.1 (List.mem_map.mpr ⟨b, hab.right_mem_tail, hb⟩)

theorem key_ne_of_adjacent (hid : ((l₁ ++ p :: l₂).map id).Nodup) {a b : α}
    (hab : Adjacent a b l₁ ∨ Adjacent a b l₂) : id b ≠ id p ∧ l₂.head?.map id ≠ some (id b) := by
  rw [List.map_append, List.map_cons, List.nodup_append, List.nodup_cons] at hid
  obtain ⟨-, ⟨hp, hid₂⟩, hdisj⟩ := hid
  rcases hab with hab | hab
  · have hb : id b ∈ l₁.map id := List.mem_map_of_mem hab.mem.2
    refine ⟨hdisj _ hb _ List.mem_cons_self, fun he => ?_⟩
    obtain ⟨c, hc, he⟩ := Option.map_eq_some_iff.mp he
    have hc' : id b ∈ l₂.map id := he ▸ List.mem_map_of_mem (List.mem_of_mem_head? hc)
    exact hdisj _ hb _ (List.mem_cons_of_mem _ hc') rfl
  · refine ⟨fun he => hp (he ▸ List.mem_map_of_mem hab.mem.2), fun he => ?_⟩
    cases l₂ with
    | nil => exact hab
    | cons c l =>
      rw [List.map_cons, List.nodup_cons] at hid₂
      exact hid₂.1 (List.mem_map.mpr ⟨b, hab.right_mem_tail, by simpa using he.symm⟩)

/-- An insertion that writes the pairs on both sides of the new entry keeps the store linked. -/
theorem Linked.insert (h : Linked id w (l₁ ++ l₂) edges) (hid : ((l₁ ++ p :: l₂).map id).Nodup)
    (hp : edges' (id p) = l₁.getLast?.map (fun a => w a p))
    (hc : ∀ c, l₂.head? = some c → edges' (id c) = some (w p c))
    (hrest : ∀ i, i ≠ id p → l₂.head?.map id ≠ some i → edges' i = edges i) :
    Linked id w (l₁ ++ p :: l₂) edges' := by
  constructor
  · intro a b hab
    rcases (adjacent_append l₁ (p :: l₂)).mp hab with hab | ⟨ha, hb⟩ | hab
    · obtain ⟨hnew, hnext⟩ := key_ne_of_adjacent hid (.inl hab)
      rw [hrest _ hnew hnext]
      exact h.stored a b ((adjacent_append l₁ l₂).mpr (.inl hab))
    · obtain rfl : p = b := by simpa using hb
      rw [hp, ha, Option.map_some]
    · cases hl : l₂ with
      | nil => simp [hl, Adjacent] at hab
      | cons c l =>
        rw [hl] at hab
        rcases hab with ⟨rfl, rfl⟩ | hab
        · exact hc _ (by simp [hl])
        · rw [← hl] at hab
          obtain ⟨hnew, hnext⟩ := key_ne_of_adjacent hid (.inr hab)
          rw [hrest _ hnew hnext]
          exact h.stored a b ((adjacent_append l₁ l₂).mpr (.inr (.inr hab)))
  · intro i v hi
    by_cases hip : i = id p
    · subst hip
      rw [hp] at hi
      obtain ⟨a, ha, -⟩ := Option.map_eq_some_iff.mp hi
      exact ⟨a, p, (adjacent_append l₁ (p :: l₂)).mpr (.inr (.inl ⟨ha, rfl⟩)), rfl⟩
    · by_cases hic : l₂.head?.map id = some i
      · obtain ⟨c, hl, rfl⟩ := Option.map_eq_some_iff.mp hic
        exact ⟨p, c, (adjacent_append l₁ (p :: l₂)).mpr (.inr (.inr (adjacent_cons_head hl))), rfl⟩
      · rw [hrest i hip hic] at hi
        obtain ⟨a, b, hab, rfl⟩ := h.only i v hi
        rcases (adjacent_append l₁ l₂).mp hab with hab | ⟨ha, hb⟩ | hab
        · exact ⟨a, b, (adjacent_append l₁ (p :: l₂)).mpr (.inl hab), rfl⟩
        · exact absurd (by rw [hb]; rfl) hic
        · exact ⟨a, b, (adjacent_append l₁ (p :: l₂)).mpr (.inr (.inr (hab.cons p))), rfl⟩

end Linked

end CardScope.Library
