import CardScope.Library.Chain
import CardScope.Library.Table

/-! # Two runs side by side

Lists and tables whose entries correspond one by one, and what selections, updates and folds do to
the correspondence.
-/

set_option linter.unusedSectionVars false
namespace CardScope.Library

section Lists

variable {α β σ τ δ : Type*} {R : α → β → Prop} {l : List α} {l' : List β}

theorem forall₂_mem (h : List.Forall₂ R l l') :
    List.Forall₂ (fun a b => R a b ∧ a ∈ l ∧ b ∈ l') l l' := by
  obtain ⟨hlength, hzip⟩ := List.forall₂_iff_zip.mp h
  exact List.forall₂_iff_zip.mpr ⟨hlength, fun hab => ⟨hzip hab, List.of_mem_zip hab⟩⟩

/-- Two successful folds over corresponding lists stay related. -/
theorem foldlM_parallel {step : σ → α → Except δ σ} {step' : τ → β → Except δ τ}
    (I : σ → τ → Prop)
    (hstep : ∀ a b s t s' t', R a b → I s t → step s a = .ok s' → step' t b = .ok t' → I s' t')
    (h : List.Forall₂ R l l') {s s' : σ} {t t' : τ} (hI : I s t)
    (hs : l.foldlM step s = .ok s') (ht : l'.foldlM step' t = .ok t') : I s' t' := by
  induction h generalizing s t with
  | nil =>
    cases hs
    cases ht
    exact hI
  | @cons a b l l' hab _ ih =>
    rw [List.foldlM_cons] at hs ht
    cases has : step s a with
    | error d => simp [has, bind, Except.bind] at hs
    | ok u =>
      cases hbt : step' t b with
      | error d => simp [hbt, bind, Except.bind] at ht
      | ok v =>
        rw [has] at hs
        rw [hbt] at ht
        exact ih (hstep a b s t u v hab hI has hbt) hs ht

variable {time : α → ℤ} {time' : β → ℤ}

theorem latest_parallel (htime : ∀ a b, R a b → time a = time' b) (h : List.Forall₂ R l l') :
    Option.Rel R (latest time l) (latest time' l') := by
  induction h with
  | nil => exact .none
  | @cons a b l l' hab _ ih =>
    rw [latest, latest]
    generalize latest time l = m at ih ⊢
    generalize latest time' l' = m' at ih ⊢
    cases ih with
    | none => exact .some hab
    | @some c d hcd =>
      simp only [htime a b hab, htime c d hcd]
      split_ifs
      · exact .some hcd
      · exact .some hab

theorem earliest_parallel (htime : ∀ a b, R a b → time a = time' b) (h : List.Forall₂ R l l') :
    Option.Rel R (earliest time l) (earliest time' l') :=
  latest_parallel (fun a b hab => congrArg Neg.neg (htime a b hab)) h

end Lists

namespace Table

variable {ρ κ : Type*} {key : ρ → κ} {R : ρ → ρ → Prop} {t t' : Table ρ key} {r r' : ρ}

/-- The rows of two tables have the same keys in the same order and are related. -/
def Aligned (R : ρ → ρ → Prop) (t t' : Table ρ key) : Prop :=
  List.Forall₂ (fun r r' => key r = key r' ∧ R r r') t.rows t'.rows

theorem aligned_empty : Aligned R (empty : Table ρ key) empty := .nil

theorem Aligned.imp {S : ρ → ρ → Prop} (h : Aligned R t t') (hRS : ∀ r r', R r r' → S r r') :
    Aligned S t t' :=
  List.Forall₂.imp (fun r r' hr => ⟨hr.1, hRS r r' hr.2⟩) h

theorem Aligned.keep {p p' : ρ → Bool} (h : Aligned R t t')
    (hp : ∀ r r', key r = key r' → R r r' → p r = p' r') : Aligned R (t.keep p) (t'.keep p') :=
  List.rel_filter (fun {r r'} hr => iff_of_eq (congrArg (fun b => b = true) (hp r r' hr.1 hr.2))) h

theorem Aligned.update {f f' : ρ → ρ} {hf : ∀ r, key (f r) = key r} {hf' : ∀ r, key (f' r) = key r}
    (h : Aligned R t t') (hR : ∀ r r', key r = key r' → R r r' → R (f r) (f' r')) :
    Aligned R (t.update f hf) (t'.update f' hf') :=
  List.rel_map (P := fun r r' => key r = key r' ∧ R r r')
    (fun {r r'} hr => ⟨by rw [hf, hf', hr.1], hR r r' hr.1 hr.2⟩) h

variable [DecidableEq κ]

theorem Aligned.find? (h : Aligned R t t') (k : κ) :
    Option.Rel R (t.find? k) (t'.find? k) := by
  unfold Table.find?
  unfold Aligned at h
  generalize t.rows = l at h
  generalize t'.rows = l' at h
  induction h with
  | nil => exact .none
  | cons hr _ ih =>
    rw [List.find?_cons, List.find?_cons, hr.1]
    split
    · exact .some hr.2
    · exact ih

theorem Aligned.insert (h : Aligned R t t') (hkey : key r = key r') (hr : R r r')
    (hfree : ¬ t.HasKey (key r)) (hfree' : ¬ t'.HasKey (key r')) :
    Aligned R (t.insert r hfree) (t'.insert r' hfree') :=
  .cons ⟨hkey, hr⟩ h

theorem Aligned.put (h : Aligned R t t') (hkey : key r = key r') (hr : R r r') :
    Aligned R (t.put r) (t'.put r') :=
  (h.keep (fun s s' hs _ => by rw [hs, hkey])).insert hkey hr _ _

theorem Aligned.modify {k : κ} {f f' : ρ → ρ} {hf : ∀ r, key (f r) = key r}
    {hf' : ∀ r, key (f' r) = key r} (h : Aligned R t t')
    (hR : ∀ r r', key r = k → R r r' → R (f r) (f' r')) :
    Aligned R (t.modify k f hf) (t'.modify k f' hf') := by
  apply h.update
  intro r r' hkey hr
  rw [← hkey]
  split_ifs with hk
  · exact hR r r' hk hr
  · exact hr

theorem Aligned.sum_le {M : Type*} [AddCommMonoid M] [PartialOrder M] [IsOrderedAddMonoid M]
    {f : ρ → M} (h : Aligned R t t')
    (hle : ∀ r r', key r = key r' → R r r' → f r' ≤ f r) : t'.sum f ≤ t.sum f := by
  unfold Table.sum
  unfold Aligned at h
  generalize t.rows = l at h
  generalize t'.rows = l' at h
  induction h with
  | nil => exact le_rfl
  | cons hr _ ih =>
    rw [List.map_cons, List.map_cons, List.sum_cons, List.sum_cons]
    exact add_le_add (hle _ _ hr.1 hr.2) ih

end Table

end CardScope.Library
