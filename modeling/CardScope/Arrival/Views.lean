import CardScope.Arrival.CardState
import CardScope.Integration.SingleCount

/-! # What integration sees of a report

A point without known occupancy and without metrics only ends the interval before it. For one
card a report is therefore either its observation or a gap, and a timeline of the card is a
list of reports.
-/

namespace CardScope.Arrival
open Library Model Hub Ingestion Integration

def Silent (p : Point) : Prop := p.processValid = false ∧ p.util = none ∧ p.memory = none

instance (p : Point) : Decidable (Silent p) :=
  inferInstanceAs (Decidable (p.processValid = false ∧ p.util = none ∧ p.memory = none))

def gapPoint (time : ℤ) : Point where
  atMs := time
  interval := 0
  seq := 0
  model := ""
  occupied := false
  processValid := false
  userValid := false
  users := Table.empty
  util := none
  memory := none
  status := "query_failed"

def visible (p : Point) : Point := if Silent p then gapPoint p.atMs else p

def view (uuid : String) (s : Snapshot) : Point :=
  (s.gpus.find? (fun g => g.uuid = uuid)).elim (gapPoint s.atMs) (fun g => visible (pointOf s g))

theorem silent_gapPoint (time : ℤ) : Silent (gapPoint time) := ⟨rfl, rfl, rfl⟩

@[simp] theorem visible_atMs (p : Point) : (visible p).atMs = p.atMs := by
  unfold visible
  split_ifs <;> rfl

@[simp] theorem view_atMs (uuid : String) (s : Snapshot) : (view uuid s).atMs = s.atMs := by
  unfold view
  cases s.gpus.find? (fun g => g.uuid = uuid) with
  | none => rfl
  | some g => exact visible_atMs _

theorem view_of_not_lists {uuid : String} {s : Snapshot} (h : ¬ s.Lists uuid) :
    view uuid s = gapPoint s.atMs := by
  have hnone : s.gpus.find? (fun g => g.uuid = uuid) = none := by
    rw [List.find?_eq_none]
    exact fun g hg hu => h ⟨g, hg, of_decide_eq_true hu⟩
  rw [view, hnone, Option.elim_none]

theorem view_of_mem {s : Snapshot} (hnodup : (s.gpus.map GPU.uuid).Nodup) {g : GPU}
    (hg : g ∈ s.gpus) : view g.uuid s = visible (pointOf s g) := by
  have hfind : s.gpus.find? (fun c => c.uuid = g.uuid) = some g := by
    cases hf : s.gpus.find? (fun c => c.uuid = g.uuid) with
    | none => exact absurd (decide_eq_true rfl) (List.find?_eq_none.mp hf g hg)
    | some c =>
      have hu : c.uuid = g.uuid := by simpa using List.find?_some hf
      rw [List.inj_on_of_nodup_map hnodup (List.mem_of_find?_eq_some hf) hg hu]
  rw [view, hfind, Option.elim_some]

theorem visible_queryFailed (s : Snapshot) (c : GPU) :
    visible (pointOf s (queryFailed s c)) = gapPoint s.atMs := by
  have hsilent : Silent (pointOf s (queryFailed s c)) := by
    simp [Silent, pointOf, queryFailed]
  rw [visible, if_pos hsilent]
  rfl

section Weight

variable {n u : String} {a b : Point}

theorem contributions_visible_right : contributions n u a (visible b) = contributions n u a b := by
  unfold contributions
  rw [visible_atMs]

theorem total_of_silent (h : Silent a) (q : RollupKey → Bool) :
    total q (contributions n u a b) = 0 := by
  apply List.sum_eq_zero
  intro x hx
  obtain ⟨c, hc, rfl⟩ := List.mem_map.mp hx
  have hzero : c.measures = 0 := by
    obtain ⟨-, res, -, s, -, rfl | ⟨hv, -⟩⟩ := mem_contributions hc
    · obtain ⟨hp, hutil, hmemory⟩ := h
      ext <;> simp [cardContribution, cardMeasures, hp, hutil, hmemory]
    · rw [h.1] at hv
      exact absurd hv (by decide)
  rw [hzero, ite_self]

theorem total_visible (q : RollupKey → Bool) :
    total q (contributions n u (visible a) (visible b)) = total q (contributions n u a b) := by
  rw [contributions_visible_right]
  unfold visible
  split_ifs with h
  · rw [total_of_silent h, total_of_silent (silent_gapPoint _)]
  · rfl

end Weight

/-- What the interval between two reports of a card adds to the rollups that satisfy `q`. -/
def weight (n u : String) (q : RollupKey → Bool) (a b : Snapshot) : Measures :=
  total q (contributions n u (view u a) (view u b))

theorem weight_of_not_lists {n u : String} {q : RollupKey → Bool} {a : Snapshot}
    (h : ¬ a.Lists u) (b : Snapshot) : weight n u q a b = 0 := by
  rw [weight, view_of_not_lists h]
  exact total_of_silent (silent_gapPoint _) q

/-- The report is part of the timeline of the card and client start: it lists the card or left a
gap. -/
def Seen (u b : String) (gaps : List Snapshot) (s : Snapshot) : Prop :=
  s.bootID = b ∧ (s.Lists u ∨ s ∈ gaps)

instance (u b : String) (gaps : List Snapshot) (s : Snapshot) : Decidable (Seen u b gaps s) :=
  inferInstanceAs (Decidable (s.bootID = b ∧ (s.Lists u ∨ s ∈ gaps)))

/-- What the timeline of one client start adds, given the reports that left a gap. -/
def bootIntegral (n u : String) (q : RollupKey → Bool) (reports gaps : List Snapshot) (b : String) :
    Measures :=
  chainSum (weight n u q)
    ((chronological Snapshot.atMs reports).filter (fun s => Seen u b gaps s))

/-- The timelines of reports that arrived in another order are the same, except for the gaps. -/
theorem bootIntegral_perm {n u : String} {q : RollupKey → Bool} {reports reports' : List Snapshot}
    (hp : reports.Perm reports') (htimes : (reports.map Snapshot.atMs).Nodup)
    (gaps : List Snapshot) (b : String) :
    bootIntegral n u q reports gaps b = bootIntegral n u q reports' gaps b := by
  have hchron : chronological Snapshot.atMs reports = chronological Snapshot.atMs reports' := by
    refine (chronological_ascending htimes).ext
      (chronological_ascending ((hp.map Snapshot.atMs).nodup_iff.mp htimes)) (fun s => ?_)
    rw [mem_chronological, mem_chronological, hp.mem_iff]
  rw [bootIntegral, hchron, bootIntegral]

end CardScope.Arrival
