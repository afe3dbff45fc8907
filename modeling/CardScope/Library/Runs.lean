import Mathlib

/-! # Runs of a deterministic step

Induction rules for a step applied along a list: an invariant may mention the part of
the list still to come, and two systems may be run side by side.
-/

namespace CardScope.Library

variable {σ τ ε δ : Type*}

/-- An invariant about the state and the remaining events holds at the end of a run. -/
theorem foldl_invariant (step : σ → ε → σ) (I : List ε → σ → Prop)
    (hstep : ∀ e rest s, I (e :: rest) s → I rest (step s e)) (events : List ε) (s : σ)
    (h : I events s) : I [] (events.foldl step s) := by
  induction events generalizing s with
  | nil => exact h
  | cons e rest ih => exact ih _ (hstep e rest s h)

theorem foldlM_invariant (step : σ → ε → Except δ σ) (I : List ε → σ → Prop)
    (hstep : ∀ e rest s s', I (e :: rest) s → step s e = .ok s' → I rest s')
    {events : List ε} {s s' : σ} (h : I events s) (hrun : events.foldlM step s = .ok s') :
    I [] s' := by
  induction events generalizing s with
  | nil =>
    cases hrun
    exact h
  | cons e rest ih =>
    rw [List.foldlM_cons] at hrun
    cases hs : step s e with
    | error d => simp [hs, bind, Except.bind] at hrun
    | ok t =>
      rw [hs] at hrun
      exact ih (hstep e rest s t h hs) hrun

theorem foldlM_succeeds (step : σ → ε → Except δ σ) (I : List ε → σ → Prop)
    (hstep : ∀ e rest s, I (e :: rest) s → ∃ s', step s e = .ok s' ∧ I rest s')
    (events : List ε) (s : σ) (h : I events s) :
    ∃ s', events.foldlM step s = .ok s' ∧ I [] s' := by
  induction events generalizing s with
  | nil => exact ⟨s, rfl, h⟩
  | cons e rest ih =>
    obtain ⟨t, hs, ht⟩ := hstep e rest s h
    obtain ⟨s', hrun, hI⟩ := ih t ht
    refine ⟨s', ?_, hI⟩
    rw [List.foldlM_cons, hs]
    exact hrun

theorem foldlM_map {step : σ → ε → Except δ σ} {step' : τ → ε → Except δ τ} (φ : σ → τ)
    (I : σ → Prop) (hstep : ∀ s e, I s → step' (φ s) e = (step s e).map φ)
    (hkeep : ∀ s e s', I s → step s e = .ok s' → I s') (events : List ε) {s : σ} (h : I s) :
    events.foldlM step' (φ s) = (events.foldlM step s).map φ := by
  induction events generalizing s with
  | nil => rfl
  | cons e rest ih =>
    rw [List.foldlM_cons, List.foldlM_cons, hstep s e h]
    cases hs : step s e with
    | error d => rfl
    | ok t => exact ih (hkeep s e t h hs)

/-- A condition on state and event holds before every step of a run. -/
def Along (step : σ → ε → σ) (C : σ → ε → Prop) : σ → List ε → Prop
  | _, [] => True
  | s, e :: rest => C s e ∧ Along step C (step s e) rest

instance Along.decidable (step : σ → ε → σ) (C : σ → ε → Prop) [∀ s e, Decidable (C s e)] :
    ∀ (s : σ) (events : List ε), Decidable (Along step C s events)
  | _, [] => inferInstanceAs (Decidable True)
  | s, e :: rest =>
    have := Along.decidable step C (step s e) rest
    inferInstanceAs (Decidable (C s e ∧ Along step C (step s e) rest))

theorem along_append {step : σ → ε → σ} {C : σ → ε → Prop} {early late : List ε} {s : σ} :
    Along step C s (early ++ late) ↔ Along step C s early ∧ Along step C (early.foldl step s) late := by
  induction early generalizing s with
  | nil => exact ⟨fun h => ⟨trivial, h⟩, And.right⟩
  | cons e early ih => rw [List.cons_append, Along, Along, ih, and_assoc, List.foldl_cons]

theorem along_iff {step : σ → ε → σ} {C : σ → ε → Prop} {events : List ε} {s : σ} :
    Along step C s events ↔
      ∀ early e, early ++ [e] <+: events → C (early.foldl step s) e := by
  induction events generalizing s with
  | nil => exact iff_of_true trivial (fun early e h => by simp at h)
  | cons b rest ih =>
    rw [Along, ih]
    constructor
    · rintro ⟨hb, hrest⟩ early e he
      cases early with
      | nil =>
        obtain ⟨rfl, -⟩ := List.cons_prefix_cons.mp he
        exact hb
      | cons a early =>
        obtain ⟨rfl, hrest'⟩ := List.cons_prefix_cons.mp he
        exact hrest early e hrest'
    · intro h
      exact ⟨h [] b ⟨rest, rfl⟩,
        fun early e he => h (b :: early) e ((List.prefix_cons_inj b).mpr he)⟩

/-- An invariant that steps keep under a condition holds after a run along which it holds. -/
theorem foldl_invariant_along {step : σ → ε → σ} {C : σ → ε → Prop} (I : σ → Prop)
    {events : List ε} (hstep : ∀ s, ∀ e ∈ events, I s → C s e → I (step s e)) {s : σ}
    (halong : Along step C s events) (h : I s) : I (events.foldl step s) := by
  induction events generalizing s with
  | nil => exact h
  | cons e rest ih =>
    exact ih (fun t e' he' => hstep t e' (List.mem_cons_of_mem _ he')) halong.2
      (hstep s e List.mem_cons_self h halong.1)

/-- When each step of the run keeps a property exactly under a condition, the property holds
throughout the run exactly when the condition holds along it. `J` is what is known of the states
and the events to come. -/
theorem forall_prefix_iff_along_of {step : σ → ε → σ} {C : σ → ε → Prop}
    (J : List ε → σ → Prop) (I : σ → Prop)
    (hknown : ∀ e rest s, J (e :: rest) s → J rest (step s e))
    (hstep : ∀ e rest s, J (e :: rest) s → I s → (I (step s e) ↔ C s e)) (events : List ε) {s : σ}
    (hJ : J events s) (h : I s) :
    (∀ early, early <+: events → I (early.foldl step s)) ↔ Along step C s events := by
  induction events generalizing s with
  | nil =>
    refine iff_of_true (fun early he => ?_) trivial
    rw [List.prefix_nil.mp he]
    exact h
  | cons e rest ih =>
    constructor
    · intro hall
      have hnext : I (step s e) := hall [e] ⟨rest, rfl⟩
      exact ⟨(hstep e rest s hJ h).mp hnext, (ih (hknown e rest s hJ) hnext).mp (fun early he =>
        hall (e :: early) ((List.prefix_cons_inj e).mpr he))⟩
    · rintro ⟨hc, halong⟩ early he
      have hnext : I (step s e) := (hstep e rest s hJ h).mpr hc
      cases early with
      | nil => exact h
      | cons b early =>
        obtain ⟨rfl, hrest⟩ := List.cons_prefix_cons.mp he
        exact (ih (hknown _ _ _ hJ) hnext).mpr halong early hrest

theorem forall_prefix_iff_along {step : σ → ε → σ} {C : σ → ε → Prop} (I : σ → Prop)
    (hstep : ∀ s e, I s → (I (step s e) ↔ C s e)) (events : List ε) {s : σ} (h : I s) :
    (∀ early, early <+: events → I (early.foldl step s)) ↔ Along step C s events :=
  forall_prefix_iff_along_of (fun _ _ => True) I (fun _ _ _ _ => trivial)
    (fun e _ s _ => hstep s e) events trivial h

theorem foldlM_simulation (step : σ → ε → Except δ σ) (R : List ε → σ → σ → Prop)
    (hstep : ∀ e rest s t s' t', R (e :: rest) s t → step s e = .ok s' → step t e = .ok t' →
      R rest s' t') {events : List ε} {s t s' t' : σ} (h : R events s t)
    (hs : events.foldlM step s = .ok s') (ht : events.foldlM step t = .ok t') : R [] s' t' := by
  induction events generalizing s t with
  | nil =>
    cases hs
    cases ht
    exact h
  | cons e rest ih =>
    rw [List.foldlM_cons] at hs ht
    cases hes : step s e with
    | error d => simp [hes, bind, Except.bind] at hs
    | ok u =>
      cases het : step t e with
      | error d => simp [het, bind, Except.bind] at ht
      | ok v =>
        rw [hes] at hs
        rw [het] at ht
        exact ih (hstep e rest s t u v h hes het) hs ht

/-- Two runs over the same events stay related. -/
theorem foldl_simulation (step : σ → ε → σ) (step' : τ → ε → τ) (R : List ε → σ → τ → Prop)
    (hstep : ∀ e rest s t, R (e :: rest) s t → R rest (step s e) (step' t e))
    (events : List ε) (s : σ) (t : τ) (h : R events s t) :
    R [] (events.foldl step s) (events.foldl step' t) := by
  induction events generalizing s t with
  | nil => exact h
  | cons e rest ih => exact ih _ _ (hstep e rest s t h)

end CardScope.Library
