import Mathlib

/-! # Grants that stand

A log whose entries open grants and end grants. A grant stands when some entry opened it and no
later entry ended it. A system that keeps a set of grants in step with its log holds exactly the
grants that stand.
-/

namespace CardScope.Library

/-- What an entry of a log says about grants. -/
structure Ledger (ε γ : Type*) where
  opens : ε → Option γ
  ends : ε → γ → Prop

variable {σ α ε γ : Type*}

/-- The grant was opened in the log and has not been ended since. -/
def Ledger.Standing (ledger : Ledger ε γ) (log : List ε) (g : γ) : Prop :=
  ∃ before e after, log = before ++ e :: after ∧ ledger.opens e = some g ∧
    ∀ later ∈ after, ¬ ledger.ends later g

variable {ledger : Ledger ε γ} {log : List ε} {g : γ} {e : ε}

@[simp] theorem not_standing_nil : ¬ ledger.Standing [] g := by
  simp [Ledger.Standing]

/-- A further entry opens the grant, or the grant stood before and the entry does not end it. -/
@[simp] theorem standing_snoc : ledger.Standing (log ++ [e]) g ↔
    ledger.opens e = some g ∨ ledger.Standing log g ∧ ¬ ledger.ends e g := by
  constructor
  · rintro ⟨before, opening, after, hlog, hopens, hkept⟩
    induction after using List.reverseRecOn with
    | nil =>
      obtain ⟨-, hlast⟩ := List.append_inj' hlog rfl
      cases hlast
      exact .inl hopens
    | append_singleton after last _ =>
      rw [← List.cons_append, ← List.append_assoc] at hlog
      obtain ⟨rfl, hlast⟩ := List.append_inj' hlog rfl
      cases hlast
      exact .inr ⟨⟨before, opening, after, rfl, hopens, fun later hl => hkept later (by simp [hl])⟩,
        hkept e (by simp)⟩
  · rintro (hopens | ⟨⟨before, opening, after, rfl, hopens, hkept⟩, hend⟩)
    · exact ⟨log, e, [], rfl, hopens, by simp⟩
    · refine ⟨before, opening, after ++ [e], by simp, hopens, fun later hl => ?_⟩
      rcases List.mem_append.mp hl with hl | hl
      · exact hkept later hl
      · rwa [List.mem_singleton.mp hl]

def logged (step : σ → α → σ) (entry : σ → α → Option ε) (x : σ × List ε) (a : α) : σ × List ε :=
  (step x.1 a, x.2 ++ (entry x.1 a).toList)

/-- A step changes what is held as its entry says, or not at all. -/
def Ledger.Explains (ledger : Ledger ε γ) (holds holds' : γ → Prop) : Option ε → Prop
  | none => ∀ g, holds' g ↔ holds g
  | some e => ∀ g, holds' g ↔ ledger.opens e = some g ∨ holds g ∧ ¬ ledger.ends e g

/-- Over a whole run the grants that are held are those that stand. -/
theorem holds_iff_standing {step : σ → α → σ} {entry : σ → α → Option ε} (holds : σ → γ → Prop)
    (hstep : ∀ s a, ledger.Explains (holds s) (holds (step s a)) (entry s a)) (actions : List α)
    {x : σ × List ε} (h : ∀ g, holds x.1 g ↔ ledger.Standing x.2 g) (g : γ) :
    holds (actions.foldl (logged step entry) x).1 g ↔
      ledger.Standing (actions.foldl (logged step entry) x).2 g := by
  induction actions generalizing x with
  | nil => exact h g
  | cons a actions ih =>
    apply ih
    intro g
    have hexplains := hstep x.1 a
    cases he : entry x.1 a with
    | none =>
      rw [he] at hexplains
      simp [logged, he, hexplains g, h g]
    | some e =>
      rw [he] at hexplains
      simp [logged, he, hexplains g, h g]

end CardScope.Library
