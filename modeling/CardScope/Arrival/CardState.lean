import CardScope.Model.Snapshot

/-! # One card as its node learns of it

What decides whether a report of a failed enumeration leaves a gap in the history of a card:
whether the card is in the live state of the node, and since when it has been seen. Both
depend on the reports that arrived before.
-/

namespace CardScope.Arrival
open Model

/-- The card in the live state, its first sighting, the time of the live state and the failed
reports that left a gap, the last one first. -/
@[ext] structure CardState where
  live : Bool := false
  first : Option ℤ := none
  sampleAt : ℤ := 0
  gaps : List Snapshot := []

namespace CardState

/-- The report leaves a gap: its enumeration failed to find a card of the live state that had
been seen by then. -/
def Gap (c : CardState) (s : Snapshot) : Prop :=
  s.gpuStatus ≠ "ok" ∧ c.live ∧ ∃ t ∈ c.first, t ≤ s.atMs

instance (c : CardState) (s : Snapshot) : Decidable (c.Gap s) :=
  inferInstanceAs (Decidable (s.gpuStatus ≠ "ok" ∧ c.live ∧ ∃ t ∈ c.first, t ≤ s.atMs))

def step (uuid : String) (c : CardState) (s : Snapshot) : CardState :=
  if s.Lists uuid then
    { c with
      live := c.live || decide (s.atMs > c.sampleAt)
      first := some (c.first.elim s.atMs (fun t => min t s.atMs))
      sampleAt := max c.sampleAt s.atMs }
  else
    { c with
      sampleAt := max c.sampleAt s.atMs
      gaps := if c.Gap s then s :: c.gaps else c.gaps }

def run (uuid : String) (c : CardState) (reports : List Snapshot) : CardState :=
  reports.foldl (step uuid) c

variable {uuid : String} {c : CardState} {s : Snapshot} {l : List Snapshot}

theorem step_of_lists (h : s.Lists uuid) : c.step uuid s = { c with
    live := c.live || decide (s.atMs > c.sampleAt)
    first := some (c.first.elim s.atMs (fun t => min t s.atMs))
    sampleAt := max c.sampleAt s.atMs } := if_pos h

theorem step_of_not_lists (h : ¬ s.Lists uuid) : c.step uuid s = { c with
    sampleAt := max c.sampleAt s.atMs
    gaps := if c.Gap s then s :: c.gaps else c.gaps } := if_neg h

theorem run_cons (uuid : String) (c : CardState) (s : Snapshot) (l : List Snapshot) :
    run uuid c (s :: l) = run uuid (c.step uuid s) l := rfl

theorem run_append (uuid : String) (c : CardState) (l₁ l₂ : List Snapshot) :
    run uuid c (l₁ ++ l₂) = run uuid (run uuid c l₁) l₂ := List.foldl_append

/-- A card enters the live state with a report of a positive time that lists it, and a gap is
left by a failed report that does not. -/
theorem run_sound (reports : List Snapshot) :
    0 ≤ (run uuid {} reports).sampleAt ∧
    ((run uuid {} reports).live → ∃ r ∈ reports, r.Lists uuid ∧ 0 < r.atMs) ∧
    ∀ f ∈ (run uuid {} reports).gaps, f ∈ reports ∧ f.gpuStatus ≠ "ok" ∧ ¬ f.Lists uuid ∧
      ∃ r ∈ reports, r.Lists uuid ∧ 0 < r.atMs := by
  induction reports using List.reverseRecOn with
  | nil => exact ⟨le_rfl, by simp [run], by simp [run]⟩
  | append_singleton l s ih =>
    obtain ⟨hat, hlive, hgaps⟩ := ih
    have hmono : (∃ r ∈ l, r.Lists uuid ∧ 0 < r.atMs) →
        ∃ r ∈ l ++ [s], r.Lists uuid ∧ 0 < r.atMs := by
      rintro ⟨r, hr, h⟩
      exact ⟨r, List.mem_append_left _ hr, h⟩
    have hold : ∀ f ∈ (run uuid {} l).gaps, f ∈ l ++ [s] ∧ f.gpuStatus ≠ "ok" ∧ ¬ f.Lists uuid ∧
        ∃ r ∈ l ++ [s], r.Lists uuid ∧ 0 < r.atMs := by
      intro f hf
      obtain ⟨hmem, hstatus, hlists, hr⟩ := hgaps f hf
      exact ⟨List.mem_append_left _ hmem, hstatus, hlists, hmono hr⟩
    rw [run_append, run_cons]
    change 0 ≤ (step uuid _ s).sampleAt ∧ ((step uuid _ s).live → _) ∧
      ∀ f ∈ (step uuid _ s).gaps, _
    by_cases hs : s.Lists uuid
    · rw [step_of_lists hs]
      refine ⟨le_max_of_le_left hat, fun h => ?_, hold⟩
      rcases (Bool.or_eq_true _ _).mp h with h | h
      · exact hmono (hlive h)
      · exact ⟨s, by simp, hs, lt_of_le_of_lt hat (of_decide_eq_true h)⟩
    · rw [step_of_not_lists hs]
      refine ⟨le_max_of_le_left hat, fun h => hmono (hlive h), fun f hf => ?_⟩
      dsimp only at hf
      split_ifs at hf with hgap
      · rcases List.mem_cons.mp hf with rfl | hf
        · exact ⟨by simp, hgap.1, hs, hmono (hlive hgap.2.1)⟩
        · exact hold f hf
      · exact hold f hf

/-- Reports that list a live card keep it live, leave no gap and are no earlier than its first
sighting. -/
theorem run_listing {t : ℤ} (hl : ∀ s ∈ l, s.Lists uuid) (hlive : c.live = true)
    (hfirst : c.first = some t) : (run uuid c l).live = true ∧ (run uuid c l).gaps = c.gaps ∧
      ∃ t', (run uuid c l).first = some t' ∧ t' ≤ t ∧ ∀ s ∈ l, t' ≤ s.atMs := by
  induction l generalizing c t with
  | nil => exact ⟨hlive, rfl, t, hfirst, le_rfl, fun s hs => absurd hs List.not_mem_nil⟩
  | cons s l ih =>
    have hstep := step_of_lists (c := c) (hl s List.mem_cons_self)
    obtain ⟨hlive', hgaps', t', hfirst', hle, hall⟩ := ih (c := c.step uuid s) (t := min t s.atMs)
      (fun r hr => hl r (List.mem_cons_of_mem _ hr)) (by simp [hstep, hlive])
      (by simp [hstep, hfirst])
    refine ⟨hlive', hgaps'.trans (by rw [hstep]), t', hfirst', hle.trans (min_le_left _ _),
      fun r hr => ?_⟩
    rcases List.mem_cons.mp hr with rfl | hr
    · exact hle.trans (min_le_right _ _)
    · exact hall r hr

/-- Before the card is live, reports that do not list it change nothing but the time of the live
state. -/
theorem run_early {t : ℤ} (hl : ∀ s ∈ l, ¬ s.Lists uuid ∧ s.atMs < t) (hlive : c.live = false)
    (hat : c.sampleAt < t) : (run uuid c l).live = false ∧ (run uuid c l).first = c.first ∧
      (run uuid c l).gaps = c.gaps ∧ (run uuid c l).sampleAt < t := by
  induction l generalizing c with
  | nil => exact ⟨hlive, rfl, rfl, hat⟩
  | cons s l ih =>
    have hs := hl s List.mem_cons_self
    have hstep := step_of_not_lists (c := c) hs.1
    have hgap : ¬ c.Gap s := fun h => Bool.false_ne_true (hlive.symm.trans h.2.1)
    have hnext := ih (c := c.step uuid s) (fun r hr => hl r (List.mem_cons_of_mem _ hr))
      (by rw [hstep]; exact hlive) (by rw [hstep]; exact max_lt hat hs.2)
    rw [hstep, if_neg hgap] at hnext
    rw [run_cons, hstep, if_neg hgap]
    exact hnext

/-- Reports that do not list a live card leave a gap exactly where they failed to find it after
its first sighting. -/
theorem run_unlisting {t : ℤ} (hl : ∀ s ∈ l, ¬ s.Lists uuid) (hlive : c.live = true)
    (hfirst : c.first = some t) : (run uuid c l).gaps =
      (l.filter (fun s => s.gpuStatus ≠ "ok" ∧ t ≤ s.atMs)).reverse ++ c.gaps := by
  induction l generalizing c with
  | nil => rfl
  | cons s l ih =>
    have hgap : c.Gap s ↔ s.gpuStatus ≠ "ok" ∧ t ≤ s.atMs := by
      simp [Gap, hlive, hfirst]
    have hstep := step_of_not_lists (c := c) (hl s List.mem_cons_self)
    have hnext := ih (c := c.step uuid s) (fun r hr => hl r (List.mem_cons_of_mem _ hr))
      (by rw [hstep]; exact hlive) (by rw [hstep]; exact hfirst)
    rw [run_cons, hnext, hstep]
    by_cases h : s.gpuStatus ≠ "ok" ∧ t ≤ s.atMs
    · rw [List.filter_cons_of_pos (by simpa using h), if_pos (hgap.mpr h), List.reverse_cons,
        List.append_assoc, List.singleton_append]
    · rw [List.filter_cons_of_neg (by simpa using h), if_neg (mt hgap.mp h)]

/-- After a report later than all that list the card, it never becomes live. -/
theorem run_behind (hl : ∀ s ∈ l, s.Lists uuid → s.atMs ≤ c.sampleAt) (hlive : c.live = false) :
    (run uuid c l).gaps = c.gaps := by
  induction l generalizing c with
  | nil => rfl
  | cons s l ih =>
    have hrest : ∀ r ∈ l, r.Lists uuid → r.atMs ≤ max c.sampleAt s.atMs := fun r hr hlists =>
      le_max_of_le_left (hl r (List.mem_cons_of_mem _ hr) hlists)
    rw [run_cons]
    by_cases hs : s.Lists uuid
    · have hstep := step_of_lists (c := c) hs
      refine (ih (c := c.step uuid s) (by rw [hstep]; exact hrest) ?_).trans (by rw [hstep])
      simp [hstep, hlive, hl s List.mem_cons_self hs]
    · have hstep := step_of_not_lists (c := c) hs
      have hgap : ¬ c.Gap s := fun h => Bool.false_ne_true (hlive.symm.trans h.2.1)
      have hnext := ih (c := c.step uuid s) (by rw [hstep]; exact hrest)
        (by rw [hstep]; exact hlive)
      rw [hnext, hstep, if_neg hgap]

/-- When a card first becomes live with the report `r` and all reports that list it follow, the
later failed reports leave the gaps. -/
theorem gaps_of_arranged {r : Snapshot} {early listing late : List Snapshot}
    (hearly : ∀ s ∈ early, ¬ s.Lists uuid ∧ s.atMs < r.atMs) (hr : r.Lists uuid)
    (hpos : 0 < r.atMs) (hlisting : ∀ s ∈ listing, s.Lists uuid)
    (hlate : ∀ s ∈ late, ¬ s.Lists uuid ∧ ∃ d ∈ r :: listing, d.atMs ≤ s.atMs) (f : Snapshot) :
    f ∈ (run uuid {} (early ++ r :: (listing ++ late))).gaps ↔
      f ∈ late ∧ f.gpuStatus ≠ "ok" := by
  obtain ⟨hlive, hfirst, hgaps, hat⟩ := run_early (c := {}) hearly rfl hpos
  have hstep := step_of_lists (c := run uuid {} early) hr
  obtain ⟨hlive', hgaps', t, hfirst', hle, hall⟩ := run_listing (t := r.atMs)
    (c := (run uuid {} early).step uuid r) hlisting (by simp [hstep, hat]) (by simp [hstep, hfirst])
  have hseen : ∀ s ∈ late, t ≤ s.atMs := by
    intro s hs
    obtain ⟨d, hd, hds⟩ := (hlate s hs).2
    rcases List.mem_cons.mp hd with rfl | hd
    · exact hle.trans hds
    · exact (hall d hd).trans hds
  rw [run_append, run_cons, run_append, run_unlisting (fun s hs => (hlate s hs).1) hlive' hfirst',
    hgaps', hstep, hgaps, List.append_nil, List.mem_reverse, List.mem_filter, decide_eq_true_eq]
  exact and_congr_right (fun hf => and_iff_left (hseen f hf))

end CardState

end CardScope.Arrival
