import CardScope.Ingestion.Events
import CardScope.Live.Replacement

/-! # Missing cards

A card is reported missing by a successful enumeration without it, unless the live state has it as
missing already. A failed enumeration overwrites that mark, so that a card that stays away can be
reported again.
-/

namespace CardScope.Live
open Library Model Hub Ingestion

/-- One card in the live state of its node. -/
structure LiveCard where
  sampleAt : ℤ := 0
  status : Option String := none

namespace LiveCard

def step (u : String) (c : LiveCard) (s : Snapshot) : LiveCard :=
  if s.atMs > c.sampleAt then
    { sampleAt := s.atMs
      status := match s.gpus.find? (fun g => g.uuid = u) with
        | some g => some g.status
        | none => c.status.map (fun _ =>
            if s.gpuStatus = "ok" then "not_detected" else "query_failed") }
  else c

def run (u : String) (c : LiveCard) (reports : List Snapshot) : LiveCard :=
  reports.foldl (step u) c

/-- The report finds the card missing that was not missing before. -/
def Misses (u : String) (c : LiveCard) (s : Snapshot) : Prop :=
  s.atMs > c.sampleAt ∧ s.gpuStatus = "ok" ∧ ¬ s.Lists u ∧ ∃ t ∈ c.status, t ≠ "not_detected"

instance (u : String) (c : LiveCard) (s : Snapshot) : Decidable (Misses u c s) :=
  inferInstanceAs (Decidable (s.atMs > c.sampleAt ∧ s.gpuStatus = "ok" ∧ ¬ s.Lists u ∧
    ∃ t ∈ c.status, t ≠ "not_detected"))

variable {u : String} {c : LiveCard} {s : Snapshot} {l : List Snapshot}

theorem run_append (u : String) (c : LiveCard) (l₁ l₂ : List Snapshot) :
    run u c (l₁ ++ l₂) = run u (run u c l₁) l₂ := List.foldl_append

theorem step_sampleAt (u : String) (c : LiveCard) (s : Snapshot) :
    (c.step u s).sampleAt = max c.sampleAt s.atMs := by
  unfold step
  by_cases h : s.atMs > c.sampleAt
  · rw [if_pos h, max_eq_right h.le]
  · rw [if_neg h, max_eq_left (not_lt.mp h)]

theorem step_of_older (h : ¬ s.atMs > c.sampleAt) : c.step u s = c := if_neg h

theorem find?_of_not_lists (h : ¬ s.Lists u) : s.gpus.find? (fun g => g.uuid = u) = none :=
  List.find?_eq_none.mpr (fun g hg => by simpa using fun hu => h ⟨g, hg, hu⟩)

theorem step_of_unlisted (h : s.atMs > c.sampleAt) (hl : ¬ s.Lists u) :
    (c.step u s).status = c.status.map (fun _ =>
      if s.gpuStatus = "ok" then "not_detected" else "query_failed") := by
  unfold step
  rw [if_pos h, find?_of_not_lists hl]

/-- The report is newer than the live state that others leave. -/
def Newer (s : Snapshot) (reports : List Snapshot) : Prop :=
  0 < s.atMs ∧ ∀ r ∈ reports, r.atMs < s.atMs

instance (s : Snapshot) (reports : List Snapshot) : Decidable (Newer s reports) :=
  inferInstanceAs (Decidable (0 < s.atMs ∧ ∀ r ∈ reports, r.atMs < s.atMs))

theorem newer_iff (u : String) (s : Snapshot) (l : List Snapshot) :
    Newer s l ↔ s.atMs > (run u {} l).sampleAt := by
  unfold Newer
  induction l using List.reverseRecOn with
  | nil => simp [run]
  | append_singleton l s' ih =>
    rw [run_append]
    change _ ↔ s.atMs > (step u (run u {} l) s').sampleAt
    have ih' : (0 < s.atMs ∧ ∀ r ∈ l, r.atMs < s.atMs) ↔ (run u {} l).sampleAt < s.atMs := ih
    rw [step_sampleAt, gt_iff_lt, max_lt_iff, ← ih']
    simp only [List.mem_append, List.mem_singleton, or_imp, forall_and, forall_eq, and_assoc]

end LiveCard

section Follow

variable {n u : String} {now : ℤ} {st tx tx' st' : Store} {s full : Snapshot}
  {node row : NodeRow} {g : GPU} {c : LiveCard}

/-- The machine of a card shows its place in the live state. -/
structure Shows (row : NodeRow) (u : String) (c : LiveCard) : Prop where
  sampleAt : row.sampleAt = c.sampleAt
  status : ∀ t, c.status = some t ↔ ∃ g ∈ row.snapshot.gpus, g.uuid = u ∧ g.status = t

theorem Shows.recorded (h : Shows node u c) (hc : Consistent st s.nodeID)
    (hr : Recorded now st s node full tx st') :
    Shows (refreshedRow now full node) u (c.step u s) := by
  constructor
  · rw [refreshedRow_sampleAt, hr.atMs_full, LiveCard.step_sampleAt, h.sampleAt]
  intro t
  by_cases hnewer : s.atMs > c.sampleAt
  · have hreplace : (refreshedRow now full node).snapshot = replacement full node := by
      rw [refreshedRow_snapshot, hr.atMs_full, h.sampleAt, if_pos hnewer]
    obtain ⟨-, hown, hall⟩ := replacement_spec hr
    rw [hreplace]
    by_cases hl : s.Lists u
    · obtain ⟨g, hg, hu⟩ := hl
      have hunique : ∀ g' ∈ s.gpus, g'.uuid = u → g' = g := fun g' hg' hu' =>
        List.inj_on_of_nodup_map hr.accepted.uuids_nodup hg' hg (hu'.trans hu.symm)
      have hfind : s.gpus.find? (fun g => g.uuid = u) = some g := by
        cases hf : s.gpus.find? (fun g => g.uuid = u) with
        | none => exact absurd (decide_eq_true hu) (List.find?_eq_none.mp hf g hg)
        | some g' =>
          rw [hunique g' (List.mem_of_find?_eq_some hf) (by simpa using List.find?_some hf)]
      have hstatus : (c.step u s).status = some g.status := by
        unfold LiveCard.step
        rw [if_pos hnewer, hfind]
      rw [hstatus, Option.some.injEq]
      constructor
      · rintro rfl
        exact ⟨g, hown g hg, hu, rfl⟩
      · rintro ⟨g', hg', hu', rfl⟩
        rcases hall g' hg' with hmem | hkept
        · rw [hunique g' hmem hu']
        · exact absurd ⟨g, hg, hu.trans hu'.symm⟩ hkept.unlisted
    · rw [LiveCard.step_of_unlisted hnewer hl, Option.map_eq_some_iff]
      constructor
      · rintro ⟨t₀, ht₀, rfl⟩
        obtain ⟨g, hg, hu, -⟩ := (h.status t₀).mp ht₀
        have hlive := lists_of_recorded hc hr (u := u) ⟨g, hg, hu⟩
        rw [hreplace] at hlive
        obtain ⟨g', hg', hu'⟩ := hlive
        rcases hall g' hg' with hmem | hkept
        · exact absurd ⟨g', hmem, hu'⟩ hl
        · exact ⟨g', hg', hu', hkept.status⟩
      · rintro ⟨g', hg', hu', rfl⟩
        rcases hall g' hg' with hmem | hkept
        · exact absurd ⟨g', hmem, hu'⟩ hl
        · obtain ⟨g, hg, hu⟩ := hkept.known
          exact ⟨g.status, (h.status _).mpr ⟨g, hg, hu.trans hu', rfl⟩, hkept.status.symm⟩
  · rw [LiveCard.step_of_older hnewer, refreshedRow_snapshot, hr.atMs_full, h.sampleAt,
      if_neg hnewer]
    exact h.status t

theorem Shows.reportsMissing_iff (h : Shows node u c) (s : Snapshot) :
    ReportsMissing s node u ↔ c.Misses u s := by
  unfold ReportsMissing LiveCard.Misses
  rw [h.sampleAt]
  refine and_congr_right (fun _ => and_congr_right (fun _ => and_congr_right (fun _ => ?_)))
  constructor
  · rintro ⟨g, hg, hu, hst⟩
    exact ⟨g.status, (h.status _).mpr ⟨g, hg, hu, rfl⟩, hst⟩
  · rintro ⟨t, ht, hst⟩
    obtain ⟨g, hg, hu, rfl⟩ := (h.status t).mp ht
    exact ⟨g, hg, hu, hst⟩

end Follow

namespace LiveCard

def alerts (u : String) : LiveCard → List Snapshot → List Snapshot
  | _, [] => []
  | c, s :: rest =>
    if Misses u c s then s :: alerts u (c.step u s) rest else alerts u (c.step u s) rest

variable {u : String} {c : LiveCard} {s a b e : Snapshot} {l : List Snapshot}

theorem alerts_append (u : String) (c : LiveCard) (l₁ l₂ : List Snapshot) :
    alerts u c (l₁ ++ l₂) = alerts u c l₁ ++ alerts u (run u c l₁) l₂ := by
  induction l₁ generalizing c with
  | nil => rfl
  | cons s l₁ ih =>
    rw [List.cons_append, alerts, alerts, ih]
    split_ifs <;> rfl

theorem mem_alerts : e ∈ alerts u c l ↔
    ∃ l₁ l₂, l = l₁ ++ e :: l₂ ∧ Misses u (run u c l₁) e := by
  induction l generalizing c with
  | nil => simp [alerts]
  | cons s l ih =>
    have hcons : e ∈ alerts u c (s :: l) ↔ e = s ∧ Misses u c s ∨ e ∈ alerts u (c.step u s) l := by
      rw [alerts]
      split_ifs with hm <;> simp [hm]
    rw [hcons, ih]
    constructor
    · rintro (⟨rfl, hm⟩ | ⟨l₁, l₂, rfl, hm⟩)
      · exact ⟨[], l, rfl, hm⟩
      · exact ⟨s :: l₁, l₂, rfl, hm⟩
    · rintro ⟨l₁, l₂, heq, hm⟩
      cases l₁ with
      | nil =>
        cases heq
        exact .inl ⟨rfl, hm⟩
      | cons s' l₁ =>
        cases heq
        exact .inr ⟨l₁, l₂, rfl, hm⟩

/-- A relation between all pairs of alerts is shown for two positions of the run. -/
theorem pairwise_alerts {R : Snapshot → Snapshot → Prop}
    (h : ∀ l₁ a m e l₂, l = l₁ ++ a :: m ++ e :: l₂ → Misses u (run u c l₁) a →
      Misses u (run u c (l₁ ++ a :: m)) e → R a e) : (alerts u c l).Pairwise R := by
  induction l generalizing c with
  | nil => exact List.Pairwise.nil
  | cons s l ih =>
    have hrest : (alerts u (c.step u s) l).Pairwise R := by
      refine ih (fun l₁ a m e l₂ heq ha he => h (s :: l₁) a m e l₂ ?_ ha he)
      rw [heq]
      rfl
    rw [alerts]
    split_ifs with hm
    · refine List.pairwise_cons.mpr ⟨fun e he => ?_, hrest⟩
      obtain ⟨m, l₂, rfl, hme⟩ := mem_alerts.mp he
      exact h [] s m e l₂ rfl hm hme
    · exact hrest

/-- A card that is not marked as missing is found missing by the next successful enumeration. -/
theorem exists_alert (hstatus : ∃ t ∈ c.status, t ≠ "not_detected")
    (hl : ∀ r ∈ l ++ [b], ¬ r.Lists u) (hok : b.gpuStatus = "ok")
    (hnewer : b.atMs > (run u c l).sampleAt) : ∃ e, e ∈ alerts u c (l ++ [b]) := by
  induction l generalizing c with
  | nil =>
    refine ⟨b, mem_alerts.mpr ⟨[], [], rfl, hnewer, hok, hl b (by simp), hstatus⟩⟩
  | cons r l ih =>
    have hrest : ∀ r ∈ l ++ [b], ¬ r.Lists u := fun r' hr' => hl r' (List.mem_cons_of_mem _ hr')
    rw [List.cons_append, alerts]
    by_cases hm : Misses u c r
    · exact ⟨r, by rw [if_pos hm]; exact List.mem_cons_self⟩
    · rw [if_neg hm]
      refine ih ?_ hrest hnewer
      by_cases hr : r.atMs > c.sampleAt
      · have hfailed : r.gpuStatus ≠ "ok" := fun hok => hm ⟨hr, hok, hl r (by simp), hstatus⟩
        obtain ⟨t, ht, -⟩ := hstatus
        rw [step_of_unlisted hr (hl r (by simp)), if_neg hfailed, Option.mem_def.mp ht]
        exact ⟨"query_failed", rfl, by decide⟩
      · rw [step_of_older hr]
        exact hstatus

/-- The mark of a missing card is lost by a failed enumeration only, while nothing lists it. -/
theorem exists_failed (hstatus : c.status = some "not_detected") (hl : ∀ r ∈ l, ¬ r.Lists u)
    (hlost : (run u c l).status ≠ some "not_detected") :
    ∃ m f m', l = m ++ f :: m' ∧ f.gpuStatus ≠ "ok" ∧ f.atMs > (run u c m).sampleAt := by
  induction l generalizing c with
  | nil => exact absurd hstatus hlost
  | cons r l ih =>
    have hrest : ∀ r ∈ l, ¬ r.Lists u := fun r' hr' => hl r' (List.mem_cons_of_mem _ hr')
    by_cases hr : r.atMs > c.sampleAt
    · by_cases hok : r.gpuStatus = "ok"
      · have hkept : (c.step u r).status = some "not_detected" := by
          rw [step_of_unlisted hr (hl r (by simp)), if_pos hok, hstatus]
          rfl
        obtain ⟨m, f, m', rfl, hf, hat⟩ := ih hkept hrest hlost
        exact ⟨r :: m, f, m', rfl, hf, hat⟩
      · exact ⟨[], r, l, rfl, hok, hr⟩
    · have hsame : run u c (r :: l) = run u c l := by
        change run u (c.step u r) l = _
        rw [step_of_older hr]
      rw [hsame] at hlost
      obtain ⟨m, f, m', rfl, hf, hat⟩ := ih hstatus hrest hlost
      refine ⟨r :: m, f, m', rfl, hf, ?_⟩
      change f.atMs > (run u (c.step u r) m).sampleAt
      rwa [step_of_older hr]

/-- The card was found missing, a failed enumeration overwrote its mark, and a successful one did
not find it again, with no report that lists it in between. -/
def Relapses (u : String) (reports : List Snapshot) : Prop :=
  ∃ l₁ a m f m' b l₂, reports = l₁ ++ a :: (m ++ f :: m') ++ b :: l₂ ∧ Misses u (run u {} l₁) a ∧
    f.gpuStatus ≠ "ok" ∧ Newer f (l₁ ++ a :: m) ∧
    b.gpuStatus = "ok" ∧ Newer b (l₁ ++ a :: (m ++ f :: m')) ∧
    ∀ r ∈ m ++ f :: m' ++ [b], ¬ r.Lists u

/-- Between any two alerts lies a report that lists the card. -/
def AlertedOnce (u : String) (reports : List Snapshot) : Prop :=
  (alerts u {} reports).Pairwise (fun earlier later =>
    ∃ r ∈ reports, earlier.atMs ≤ r.atMs ∧ r.atMs < later.atMs ∧ r.Lists u)

theorem Misses.marks (h : Misses u c s) : (c.step u s).status = some "not_detected" := by
  obtain ⟨hnewer, hok, hl, t, ht, -⟩ := h
  rw [step_of_unlisted hnewer hl, if_pos hok, Option.mem_def.mp ht]
  rfl

theorem run_marked (hstatus : c.status.isSome) (hl : ∀ r ∈ l, ¬ r.Lists u) :
    (run u c l).status.isSome := by
  induction l generalizing c with
  | nil => exact hstatus
  | cons r l ih =>
    refine ih ?_ (fun r' hr' => hl r' (List.mem_cons_of_mem _ hr'))
    by_cases hr : r.atMs > c.sampleAt
    · rw [step_of_unlisted hr (hl r (by simp)), Option.isSome_map]
      exact hstatus
    · rw [step_of_older hr]
      exact hstatus

theorem exists_alert_of_failed {f : Snapshot} {m m' : List Snapshot} (hstatus : c.status.isSome)
    (hl : ∀ r ∈ m ++ f :: m' ++ [b], ¬ r.Lists u) (hf : f.gpuStatus ≠ "ok")
    (hfnew : f.atMs > (run u c m).sampleAt) (hb : b.gpuStatus = "ok")
    (hbnew : b.atMs > (run u c (m ++ f :: m')).sampleAt) :
    ∃ e ∈ m' ++ [b], e ∈ alerts u c (m ++ f :: m' ++ [b]) := by
  have hmarked : (run u c m).status.isSome :=
    run_marked hstatus (fun r hr => hl r (by simp [hr]))
  obtain ⟨t, ht⟩ := Option.isSome_iff_exists.mp hmarked
  have hfailed : ((run u c m).step u f).status = some "query_failed" := by
    rw [step_of_unlisted hfnew (hl f (by simp)), if_neg hf, ht]
    rfl
  rw [run_append] at hbnew
  have hrest : ∀ r ∈ m' ++ [b], ¬ r.Lists u := by
    intro r hr
    apply hl r
    rw [List.append_assoc]
    exact List.mem_append_right _ (List.mem_cons_of_mem _ hr)
  obtain ⟨e, he⟩ := exists_alert (c := (run u c m).step u f) ⟨"query_failed", hfailed, by decide⟩
    hrest hb hbnew
  refine ⟨e, ?_, ?_⟩
  · obtain ⟨l₁, l₂, heq, -⟩ := mem_alerts.mp he
    rw [heq]
    simp
  · rw [List.append_assoc, List.cons_append, alerts_append, alerts]
    apply List.mem_append_right _
    split_ifs
    · exact List.mem_cons_of_mem _ he
    · exact he

/-- A relapse ends in an alert with no report of the card since the alert before. -/
theorem AlertedOnce.not_relapses {reports : List Snapshot} (honce : AlertedOnce u reports)
    (horder : reports.Pairwise (fun a b => a.atMs ≤ b.atMs)) : ¬ Relapses u reports := by
  rintro ⟨l₁, a, m, f, m', b, l₂, rfl, ha, hf, hfnew, hb, hbnew, hl⟩
  rw [newer_iff u, run_append] at hfnew hbnew
  obtain ⟨e, hmem, he⟩ := exists_alert_of_failed (c := (run u {} l₁).step u a)
    (by rw [ha.marks]; rfl) hl hf hfnew hb hbnew
  have hpair : ∀ e ∈ alerts u ((run u {} l₁).step u a) ((m ++ f :: m') ++ b :: l₂),
      ∃ r ∈ l₁ ++ a :: (m ++ f :: m') ++ b :: l₂,
        a.atMs ≤ r.atMs ∧ r.atMs < e.atMs ∧ r.Lists u := by
    unfold AlertedOnce at honce
    rw [List.append_assoc, alerts_append, List.cons_append, alerts, if_pos ha] at honce
    have hcons := (List.pairwise_append.mp honce).2.1
    rw [← List.cons_append, ← List.append_assoc] at hcons
    exact (List.pairwise_cons.mp hcons).1
  obtain ⟨r, hr, hle, hlt, hlists⟩ := hpair e (by
    have happ : (m ++ f :: m') ++ b :: l₂ = (m ++ f :: m' ++ [b]) ++ l₂ := by simp
    rw [happ, alerts_append]
    exact List.mem_append_left _ he)
  have hanew := (newer_iff u a l₁).mpr ha.1
  have hlate : ∀ r ∈ l₂, e.atMs ≤ r.atMs := by
    intro r hr
    have happ : l₁ ++ a :: (m ++ f :: m') ++ b :: l₂ =
        (l₁ ++ a :: (m ++ [f])) ++ ((m' ++ [b]) ++ l₂) := by simp
    rw [happ] at horder
    exact (List.pairwise_append.mp (List.pairwise_append.mp horder).2.1).2.2 e hmem r hr
  have hcases : r ∈ l₁ ∨ r = a ∨ r ∈ m ++ f :: m' ++ [b] ∨ r ∈ l₂ := by
    simp only [List.append_assoc, List.cons_append, List.mem_append, List.mem_cons,
      List.not_mem_nil, or_false] at hr ⊢
    tauto
  rcases hcases with hr | rfl | hr | hr
  · exact absurd hle (not_le.mpr (hanew.2 r hr))
  · exact ha.2.2.1 hlists
  · exact hl r hr hlists
  · exact absurd hlt (not_lt.mpr (hlate r hr))

/-- Without a relapse a card that is alerted again has been reported since. -/
theorem alertedOnce_of_not_relapses {reports : List Snapshot}
    (horder : reports.Pairwise (fun a b => a.atMs ≤ b.atMs)) (hno : ¬ Relapses u reports) :
    AlertedOnce u reports := by
  apply pairwise_alerts
  intro l₁ a m e l₂ heq ha he
  by_contra hnone
  have henew := (newer_iff u e (l₁ ++ a :: m)).mpr he.1
  -- everything between the two alerts lies between their times, so none of it lists the card
  have hl : ∀ r ∈ m, ¬ r.Lists u := by
    intro r hr hlists
    refine hnone ⟨r, by rw [heq]; simp [hr], ?_, henew.2 r (by simp [hr]), hlists⟩
    rw [heq, List.append_assoc, List.cons_append] at horder
    exact (List.pairwise_cons.mp (List.pairwise_append.mp horder).2.1).1 r (by simp [hr])
  rw [run_append] at he
  have hlost : (run u ((run u {} l₁).step u a) m).status ≠ some "not_detected" := by
    obtain ⟨-, -, -, t, ht, hne⟩ := he
    intro hkept
    rw [Option.mem_def] at ht
    exact hne (Option.some.inj (ht.symm.trans hkept))
  obtain ⟨m₁, f, m₂, rfl, hf, hfnew⟩ := exists_failed ha.marks hl hlost
  refine hno ⟨l₁, a, m₁, f, m₂, e, l₂, heq, ha, hf, ?_, he.2.1, henew, ?_⟩
  · rw [newer_iff u, run_append]
    exact hfnew
  · intro r hr
    rcases List.mem_append.mp hr with hr | hr
    · exact hl r hr
    · rw [List.mem_singleton.mp hr]
      exact he.2.2.1

/-- A card is alerted once for each absence exactly when it does not relapse. -/
theorem alertedOnce_iff {reports : List Snapshot}
    (horder : reports.Pairwise (fun a b => a.atMs ≤ b.atMs)) :
    AlertedOnce u reports ↔ ¬ Relapses u reports :=
  ⟨fun honce => honce.not_relapses horder, alertedOnce_of_not_relapses horder⟩

end LiveCard

section Once

variable {nodes : Table NodeRow NodeRow.id} {n u : String} {calls : List (ℤ × Snapshot)}

/-- Between any two missing events of the card lies an accepted report that lists it. -/
def ReportedOnce (st : Store) (n u : String) (reports : List Snapshot) : Prop :=
  (eventsOf st n u .missing).Pairwise (fun later earlier =>
    ∃ r ∈ reports, earlier.atMs ≤ r.atMs ∧ r.atMs < later.atMs ∧ r.Lists u)

theorem eventsOf_missing_eq (h : Intake nodes n calls) (u : String) :
    eventsOf (runIngest (freshStore nodes) calls) n u .missing =
      ((LiveCard.alerts u {} (calls.map Prod.snd)).map
        (fun s => missingEvent n u s.atMs)).reverse := by
  refine (h.induction (I := fun done st =>
    (∃ row, st.nodes.find? n = some row ∧ Shows row u (LiveCard.run u {} done)) ∧
      eventsOf st n u .missing =
        ((LiveCard.alerts u {} done).map (fun s => missingEvent n u s.atMs)).reverse) ?_ ?_).2
  · obtain ⟨row, hrow, rfl⟩ := h.registered
    refine ⟨⟨row.unreported, Table.find?_eq_some.mpr ⟨List.mem_map_of_mem hrow, rfl⟩, rfl, ?_⟩, rfl⟩
    exact fun t => iff_of_false (by simp [LiveCard.run]) (by rintro ⟨g, ⟨⟩, -⟩)
  · rintro done now s st node full tx st' - rfl - hc hr ⟨⟨row, hrow, hshows⟩, hevents⟩
    obtain rfl : node = row := Option.some.inj (hr.registered.symm.trans hrow)
    refine ⟨⟨_, hr.row, ?_⟩, ?_⟩
    · rw [LiveCard.run_append]
      exact hshows.recorded hc hr
    · rw [hr.eventsOf_missing hc, hevents, LiveCard.alerts_append, List.map_append,
        List.reverse_append]
      simp only [hshows.reportsMissing_iff, LiveCard.alerts]
      split_ifs <;> rfl

/-- Of the reports of a node that arrive in time order, the missing events of a card are separated
by reports that list it, exactly when no failed enumeration makes the hub forget that the card
was missing. -/
theorem reportedOnce_iff (nodes : Table NodeRow NodeRow.id) (n : String)
    (calls : List (ℤ × Snapshot)) (h : Intake nodes n calls)
    (horder : (calls.map Prod.snd).Pairwise (fun a b => a.atMs ≤ b.atMs)) (u : String) :
    ReportedOnce (runIngest (freshStore nodes) calls) n u (calls.map Prod.snd) ↔
      ¬ LiveCard.Relapses u (calls.map Prod.snd) := by
  rw [← LiveCard.alertedOnce_iff horder, ReportedOnce, eventsOf_missing_eq h,
    List.pairwise_reverse, List.pairwise_map]
  rfl

/-- A card is listed, missing, not queried and missing again. -/
def relapseCalls : List (ℤ × Snapshot) :=
  [(1700000071000, sample "n" 1 1700000041000),
    (1700000071000, { sample "n" 2 1700000046000 with gpus := [] }),
    (1700000071000, failedSample "n" 3 1700000051000),
    (1700000071000, { sample "n" 4 1700000056000 with gpus := [] })]

/-- A card that is listed and missing once. -/
theorem reportedOnce_iff_absent :
    ReportedOnce (runIngest (freshStore (Hub.node "n")) (relapseCalls.take 2)) "n" "GPU-test"
      ((relapseCalls.take 2).map Prod.snd) :=
  (reportedOnce_iff (Hub.node "n") "n" (relapseCalls.take 2)
    ⟨by decide, by decide, by decide +kernel, by decide⟩ (by decide) "GPU-test").mpr (by
      rintro ⟨l₁, a, m, f, m', b, l₂, heq, -, hf, -⟩
      have hmem : f ∈ (relapseCalls.take 2).map Prod.snd := by rw [heq]; simp
      have hok : ∀ s ∈ (relapseCalls.take 2).map Prod.snd, s.gpuStatus = "ok" := by decide
      exact hf (hok f hmem))

/-- The card stays away and is reported missing twice. -/
theorem missing_reported_twice : ¬ ∀ (nodes : Table NodeRow NodeRow.id) (n : String)
    (calls : List (ℤ × Snapshot)), Intake nodes n calls →
    (calls.map Prod.snd).Pairwise (fun a b => a.atMs ≤ b.atMs) → ∀ u,
      ReportedOnce (runIngest (freshStore nodes) calls) n u (calls.map Prod.snd) := by
  intro h
  have honce := h (Hub.node "n") "n" relapseCalls
    ⟨by decide, by decide, by decide +kernel, by decide⟩ (by decide) "GPU-test"
  unfold ReportedOnce at honce
  revert honce
  decide +kernel

end Once

end CardScope.Live
