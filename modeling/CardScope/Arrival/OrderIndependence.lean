import CardScope.Arrival.Batches

/-! # When the order of arrival matters

Late reports correct the intervals next to them, so for the observations of a card the order of
arrival makes no difference. A failed enumeration does: whether it cuts an interval depends on
the card being known to the hub by then. The rollups are independent of the order exactly when
no failed report lies where it would cut one.
-/

namespace CardScope.Arrival
open Library Model Hub Ingestion Integration

def Measured (g : GPU) : Prop :=
  g.status = "ok" ∧ (g.processStatus = "ok" ∨ g.util ≠ none ∨ g.memoryUsed ≠ none)

instance (g : GPU) : Decidable (Measured g) := inferInstanceAs (Decidable
  (g.status = "ok" ∧ (g.processStatus = "ok" ∨ g.util ≠ none ∨ g.memoryUsed ≠ none)))

/-- The failed report `f` does not find the card `g` that `e` has measured at most two sampling
intervals before, and no report between them lists it. -/
def Interrupts (reports : List Snapshot) (e : Snapshot) (g : GPU) (f : Snapshot) : Prop :=
  Measured g ∧ f.bootID = e.bootID ∧ f.gpuStatus ≠ "ok" ∧ ¬ f.Lists g.uuid ∧
    e.atMs < f.atMs ∧ f.atMs - e.atMs ≤ 2 * e.interval * 1000 ∧
    ∀ d ∈ reports, d.bootID = e.bootID → d.Lists g.uuid → ¬ (e.atMs < d.atMs ∧ d.atMs < f.atMs)

instance (reports : List Snapshot) (e : Snapshot) (g : GPU) (f : Snapshot) :
    Decidable (Interrupts reports e g f) := inferInstanceAs (Decidable
  (Measured g ∧ f.bootID = e.bootID ∧ f.gpuStatus ≠ "ok" ∧ ¬ f.Lists g.uuid ∧
    e.atMs < f.atMs ∧ f.atMs - e.atMs ≤ 2 * e.interval * 1000 ∧
    ∀ d ∈ reports, d.bootID = e.bootID → d.Lists g.uuid → ¬ (e.atMs < d.atMs ∧ d.atMs < f.atMs)))

/-- No failed report interrupts a card, unless the card is only reported for times up to the
epoch and never becomes live. -/
def Uninterrupted (reports : List Snapshot) : Prop :=
  ∀ e ∈ reports, ∀ g ∈ e.gpus, ∀ f ∈ reports, Interrupts reports e g f →
    ∀ r ∈ reports, r.Lists g.uuid → r.atMs ≤ 0

instance (reports : List Snapshot) : Decidable (Uninterrupted reports) :=
  inferInstanceAs (Decidable (∀ e ∈ reports, ∀ g ∈ e.gpus, ∀ f ∈ reports,
    Interrupts reports e g f → ∀ r ∈ reports, r.Lists g.uuid → r.atMs ≤ 0))

section Sufficient

variable {n u b : String} {q : RollupKey → Bool} {reports gaps : List Snapshot} {e f : Snapshot}
  {g : GPU}

theorem silent_iff : Silent (pointOf e g) ↔ ¬ Measured g := by
  unfold Silent Measured pointOf
  by_cases hs : g.status = "ok"
  · simp only [hs, beq_self_eq_true, Bool.true_and, if_true, beq_eq_false_iff_ne]
    tauto
  · simp [hs]

theorem weight_of_unmeasured (hu : (e.gpus.map GPU.uuid).Nodup) (hg : g ∈ e.gpus)
    (hm : ¬ Measured g) (y : Snapshot) : weight n g.uuid q e y = 0 := by
  rw [weight, view_of_mem hu hg, visible, if_pos (silent_iff.mpr hm)]
  exact total_of_silent (silent_gapPoint _) q

theorem weight_of_far (hu : (e.gpus.map GPU.uuid).Nodup) {y : Snapshot}
    (hfar : y.atMs - e.atMs > 2 * e.interval * 1000) : weight n u q e y = 0 := by
  by_cases hl : e.Lists u
  · obtain ⟨g, hg, rfl⟩ := hl
    by_cases hm : Measured g
    · rw [weight, view_of_mem hu hg, visible, if_neg (fun hs => silent_iff.mp hs hm),
        contributions_of_not_bridged, total_nil]
      rintro ⟨-, hle⟩
      rw [view_atMs] at hle
      change y.atMs - e.atMs ≤ 2 * e.interval * 1000 at hle
      omega
    · exact weight_of_unmeasured hu hg hm y
  · exact weight_of_not_lists hl y

theorem weight_over_gap (h : Uninterrupted reports) (hu : (e.gpus.map GPU.uuid).Nodup)
    (he : e ∈ reports) (hf : f ∈ reports) (hfailed : f.gpuStatus ≠ "ok") (hl : ¬ f.Lists u)
    (hboot : f.bootID = e.bootID) (hlt : e.atMs < f.atMs)
    (hnext : ∀ d ∈ reports, d.bootID = e.bootID → d.Lists u →
      ¬ (e.atMs < d.atMs ∧ d.atMs < f.atMs))
    (hlive : ∃ r ∈ reports, r.Lists u ∧ 0 < r.atMs) {y : Snapshot} (hy : f.atMs ≤ y.atMs) :
    weight n u q e y = 0 := by
  obtain ⟨r, hr, hrl, hpos⟩ := hlive
  by_cases hel : e.Lists u
  · obtain ⟨g, hg, rfl⟩ := hel
    by_cases hm : Measured g
    · refine weight_of_far hu (lt_of_not_ge (fun hnear => ?_))
      have hzero := h e he g hg f hf ⟨hm, hboot, hfailed, hl, hlt, by omega, hnext⟩ r hr hrl
      omega
    · exact weight_of_unmeasured hu hg hm y
  · exact weight_of_not_lists hel y

/-- In an uninterrupted batch the gaps add and remove nothing. -/
theorem bootIntegral_gaps (h : Uninterrupted reports) (htimes : (reports.map Snapshot.atMs).Nodup)
    (hnodup : ∀ s ∈ reports, (s.gpus.map GPU.uuid).Nodup)
    (hgaps : ∀ f ∈ gaps, f.gpuStatus ≠ "ok" ∧ ¬ f.Lists u ∧ ∃ r ∈ reports, r.Lists u ∧ 0 < r.atMs)
    (b : String) : bootIntegral n u q reports gaps b = bootIntegral n u q reports [] b := by
  have hasc : Ascending Snapshot.atMs
      ((chronological Snapshot.atMs reports).filter (fun s => Seen u b gaps s)) :=
    List.Pairwise.filter _ (chronological_ascending htimes)
  have hmem : ∀ {s}, s ∈ (chronological Snapshot.atMs reports).filter (fun s => Seen u b gaps s) ↔
      s ∈ reports ∧ Seen u b gaps s := by
    intro s
    rw [List.mem_filter, mem_chronological, decide_eq_true_eq]
  unfold bootIntegral
  rw [← chainSum_filter (fun s => s.Lists u) hasc]
  · rw [List.filter_filter]
    congr 1
    apply List.filter_congr
    intro s _
    rw [← Bool.decide_and, decide_eq_decide]
    unfold Seen
    simp only [List.not_mem_nil, or_false]
    tauto
  · exact fun x _ hx => weight_of_not_lists (of_decide_eq_false hx)
  · intro a x hax hx y hy
    obtain ⟨ha, hx'⟩ := hax.mem
    obtain ⟨ha, hab, -⟩ := hmem.mp ha
    obtain ⟨hxr, hxb, hseen⟩ := hmem.mp hx'
    have hxl : ¬ x.Lists u := of_decide_eq_false hx
    obtain ⟨hfailed, -, hlive⟩ := hgaps x (hseen.resolve_left hxl)
    refine weight_over_gap h (hnodup a ha) ha hxr hfailed hxl (hxb.trans hab.symm)
      (hasc.lt_of_adjacent hax) (fun d hd hdb hdl => ?_) hlive hy
    exact hasc.not_between hax (hmem.mpr ⟨hd, hdb.trans hab, .inl hdl⟩)

/-- The rollups after an uninterrupted batch are the integrals over its timelines without gaps. -/
theorem Batch.rollup_of_uninterrupted {nodes : Table NodeRow NodeRow.id}
    {calls : List (ℤ × Snapshot)} (h : Batch nodes n reports) (hun : Uninterrupted reports)
    (ha : Arrives reports calls) {k : RollupKey} (hk : k.node = n) :
    (runIngest (freshStore nodes) calls).rollup k =
      ∑ b ∈ (reports.map Snapshot.bootID).toFinset,
        bootIntegral n k.uuid (fun l => l = k) reports [] b := by
  have hnodup : ∀ s ∈ reports, (s.gpus.map GPU.uuid).Nodup := by
    intro s hs
    obtain ⟨now, hv⟩ := h.accepted s hs
    exact (validate_ok hv).uuids_nodup
  have hq : ∀ l : RollupKey, decide (l = k) → l.node = n ∧ l.uuid = k.uuid := by
    intro l hl
    rw [of_decide_eq_true hl]
    exact ⟨hk, rfl⟩
  rw [← Store.rollupSum_eq, h.rollupSum ha hq]
  refine Finset.sum_congr rfl (fun b _ => bootIntegral_gaps hun h.times hnodup ?_ b)
  intro f hf
  obtain ⟨-, hfailed, hl, r, hr, hlive⟩ := (CardState.run_sound _).2.2 f hf
  exact ⟨hfailed, hl, r, ha.order.mem_iff.mp hr, hlive⟩

theorem orderIndependent_of_uninterrupted {nodes : Table NodeRow NodeRow.id}
    (h : Batch nodes n reports) (hun : Uninterrupted reports) : OrderIndependent nodes reports := by
  intro calls calls' ha ha' k
  by_cases hk : k.node = n
  · rw [h.rollup_of_uninterrupted hun ha hk, h.rollup_of_uninterrupted hun ha' hk]
  · rw [h.rollup_of_other ha hk, h.rollup_of_other ha' hk]

end Sufficient

section KnownTime

variable {n : String} {e y : Snapshot} {g : GPU}

/-- The time for which the occupancy is known, and the metrics, added up. -/
def observed : Measures →+ ℚ where
  toFun m := m.occupancyValid + m.utilValid + m.memoryValid
  map_zero' := by simp
  map_add' a b := by
    simp only [Measures.add_occupancyValid, Measures.add_utilValid, Measures.add_memoryValid]
    ring

theorem observed_apply (m : Measures) :
    observed m = m.occupancyValid + m.utilValid + m.memoryValid := rfl

theorem observed_smul (c : ℚ) (m : Measures) : observed (c • m) = c * observed m := by
  simp only [observed_apply, Measures.smul_occupancyValid, Measures.smul_utilValid,
    Measures.smul_memoryValid, mul_add]

theorem observed_cardMeasures_nonneg (a : Point) : 0 ≤ observed (cardMeasures a 1) := by
  simp only [observed_apply, cardMeasures]
  positivity

theorem observed_cardMeasures_pos {a : Point} (h : ¬ Silent a) :
    0 < observed (cardMeasures a 1) := by
  refine lt_of_le_of_ne (observed_cardMeasures_nonneg a) (fun hzero => h ?_)
  simp only [observed_apply, cardMeasures] at hzero
  unfold Silent
  cases hv : a.processValid <;> cases hu : a.util <;> cases hm : a.memory <;>
    simp [hv, hu, hm] at hzero ⊢ <;> norm_num at hzero

/-- The known time that the interval between two reports of a card adds. -/
def knownTime (n u : String) (a y : Snapshot) : ℚ := observed (weight n u (cardRows n u 60000) a y)

theorem knownTime_of_not_lists {u : String} (h : ¬ e.Lists u) (y : Snapshot) :
    knownTime n u e y = 0 := by
  rw [knownTime, weight_of_not_lists h, map_zero]

theorem knownTime_of_near (ha : ∃ now, validate now e = .ok ()) (hg : g ∈ e.gpus) (hm : Measured g)
    (hlt : e.atMs < y.atMs) (hle : y.atMs - e.atMs ≤ 2 * e.interval * 1000) :
    knownTime n g.uuid e y =
      ((y.atMs - e.atMs : ℤ) : ℚ) / 1000 * observed (cardMeasures (pointOf e g) 1) := by
  obtain ⟨now, hv⟩ := ha
  have hbridged : Bridged (pointOf e g) (view g.uuid y) := by
    unfold Bridged
    rw [view_atMs]
    exact ⟨hlt, hle⟩
  rw [knownTime, weight, view_of_mem (validate_ok hv).uuids_nodup hg, visible,
    if_neg (fun hs => silent_iff.mp hs hm),
    total_cardRows (sound_pointOf (validate_ok hv) (.inl hg)) hbridged (.inl rfl), observed_smul,
    view_atMs]
  rfl

theorem knownTime_of_far {u : String} (hu : (e.gpus.map GPU.uuid).Nodup)
    (hfar : y.atMs - e.atMs > 2 * e.interval * 1000) : knownTime n u e y = 0 := by
  rw [knownTime, weight_of_far hu hfar, map_zero]

theorem knownTime_nonneg {u : String} (ha : ∃ now, validate now e = .ok ()) (hlt : e.atMs < y.atMs) :
    0 ≤ knownTime n u e y := by
  have hu : (e.gpus.map GPU.uuid).Nodup := by
    obtain ⟨now, hv⟩ := ha
    exact (validate_ok hv).uuids_nodup
  by_cases hl : e.Lists u
  · obtain ⟨g, hg, rfl⟩ := hl
    by_cases hm : Measured g
    · by_cases hle : y.atMs - e.atMs ≤ 2 * e.interval * 1000
      · rw [knownTime_of_near ha hg hm hlt hle]
        have hpos : (0 : ℚ) ≤ ((y.atMs - e.atMs : ℤ) : ℚ) := by
          exact_mod_cast (sub_pos.mpr hlt).le
        exact mul_nonneg (by positivity) (observed_cardMeasures_nonneg _)
      · rw [knownTime_of_far hu (not_le.mp hle)]
    · rw [knownTime, weight_of_unmeasured hu hg hm, map_zero]
  · rw [knownTime_of_not_lists hl]

theorem knownTime_pos (ha : ∃ now, validate now e = .ok ()) (hg : g ∈ e.gpus) (hm : Measured g)
    (hlt : e.atMs < y.atMs) (hle : y.atMs - e.atMs ≤ 2 * e.interval * 1000) :
    0 < knownTime n g.uuid e y := by
  rw [knownTime_of_near ha hg hm hlt hle]
  have hpos : (0 : ℚ) < ((y.atMs - e.atMs : ℤ) : ℚ) := by
    exact_mod_cast sub_pos.mpr hlt
  exact mul_pos (by positivity) (observed_cardMeasures_pos (fun hs => silent_iff.mp hs hm))

theorem knownTime_cut {f : Snapshot} {later : Option Snapshot}
    (ha : ∃ now, validate now e = .ok ()) (hg : g ∈ e.gpus) (hm : Measured g)
    (hlt : e.atMs < f.atMs) (hle : f.atMs - e.atMs ≤ 2 * e.interval * 1000)
    (hlater : ∀ y ∈ later, f.atMs < y.atMs) :
    bridge (knownTime n g.uuid) (some e) later ≠ knownTime n g.uuid e f := by
  have hpos := knownTime_pos (n := n) ha hg hm hlt hle
  cases later with
  | none => exact hpos.ne
  | some y =>
    have hy := hlater y rfl
    change knownTime n g.uuid e y ≠ _
    by_cases hnear : y.atMs - e.atMs ≤ 2 * e.interval * 1000
    · rw [knownTime_of_near ha hg hm hlt hle, knownTime_of_near ha hg hm (hlt.trans hy) hnear]
      have hless : ((f.atMs - e.atMs : ℤ) : ℚ) < ((y.atMs - e.atMs : ℤ) : ℚ) := by
        exact_mod_cast sub_lt_sub_right hy e.atMs
      refine (mul_lt_mul_of_pos_right ?_
        (observed_cardMeasures_pos (fun hs => silent_iff.mp hs hm))).ne'
      exact div_lt_div_of_pos_right hless (by norm_num)
    · obtain ⟨now, hv⟩ := ha
      rw [knownTime_of_far (validate_ok hv).uuids_nodup (not_le.mp hnear)]
      exact hpos.ne

end KnownTime

section Necessary

variable {nodes : Table NodeRow NodeRow.id} {n u b : String} {reports gaps : List Snapshot}
  {c e f : Snapshot} {g : GPU} {p : Snapshot → Bool}

def bootTime (n u : String) (reports gaps : List Snapshot) (b : String) : ℚ :=
  chainSum (knownTime n u) ((chronological Snapshot.atMs reports).filter (fun s => Seen u b gaps s))

theorem observed_bootIntegral (n u : String) (reports gaps : List Snapshot) (b : String) :
    observed (bootIntegral n u (cardRows n u 60000) reports gaps b) =
      bootTime n u reports gaps b :=
  map_chainSum observed _ _

theorem bootTime_congr {gaps' : List Snapshot} (h : ∀ s, Seen u b gaps s ↔ Seen u b gaps' s) :
    bootTime n u reports gaps b = bootTime n u reports gaps' b := by
  unfold bootTime
  rw [List.filter_congr (fun s _ => decide_eq_decide.mpr (h s))]

/-- If the order makes no difference, any two orders leave gaps of the same known time. -/
theorem sum_bootTime_eq (h : Batch nodes n reports) (hi : OrderIndependent nodes reports)
    {order order' : List Snapshot} (hp : order.Perm reports) (hp' : order'.Perm reports)
    (u : String) :
    ∑ b ∈ (reports.map Snapshot.bootID).toFinset,
        bootTime n u reports (CardState.run u {} order).gaps b =
      ∑ b ∈ (reports.map Snapshot.bootID).toFinset,
        bootTime n u reports (CardState.run u {} order').gaps b := by
  choose! clock hclock using h.accepted
  have harrives : ∀ l : List Snapshot, l.Perm reports →
      Arrives reports (l.map (fun s => (clock s, s))) ∧
        (l.map (fun s => (clock s, s))).map Prod.snd = l := by
    intro l hl
    have hsnd : (l.map (fun s => (clock s, s))).map Prod.snd = l := by
      rw [List.map_map]
      exact List.map_id l
    refine ⟨⟨by rw [hsnd]; exact hl, fun call hcall => ?_⟩, hsnd⟩
    obtain ⟨s, hs, rfl⟩ := List.mem_map.mp hcall
    exact hclock s (hl.mem_iff.mp hs)
  have hkeys : ∀ k, cardRows n u 60000 k → k.node = n ∧ k.uuid = u := by
    intro k hk
    simp only [rowsOf, decide_eq_true_eq] at hk
    exact ⟨hk.1, hk.2.1⟩
  obtain ⟨ha, hsnd⟩ := harrives order hp
  obtain ⟨ha', hsnd'⟩ := harrives order' hp'
  have hsame := Store.rollupSum_congr (p := cardRows n u 60000) (fun k _ => hi _ _ ha ha' k)
  rw [h.rollupSum ha hkeys, h.rollupSum ha' hkeys, hsnd, hsnd'] at hsame
  have hobserved := congrArg observed hsame
  rw [map_sum, map_sum] at hobserved
  simpa only [observed_bootIntegral] using hobserved

/-- The reports that do not list the card and satisfy `p`, those that list it with `c` as the
first, and the others. -/
def arrange (u : String) (c : Snapshot) (p : Snapshot → Bool) (reports : List Snapshot) :
    List Snapshot :=
  (reports.filter (fun s => ¬ s.Lists u)).filter p ++
    c :: ((reports.filter (fun s => s.Lists u)).erase c ++
      (reports.filter (fun s => ¬ s.Lists u)).filter (fun s => !p s))

theorem arrange_perm (hc : c ∈ reports) (hl : c.Lists u) (p : Snapshot → Bool) :
    (arrange u c p reports).Perm reports := by
  have hmem : c ∈ reports.filter (fun s => s.Lists u) :=
    List.mem_filter.mpr ⟨hc, decide_eq_true hl⟩
  have hlisting := (List.perm_cons_erase hmem).symm
  have hsplit := List.filter_append_perm p (reports.filter (fun s => ¬ s.Lists u))
  have hall := List.filter_append_perm (fun s => decide (s.Lists u)) reports
  simp only [← decide_not] at hall
  have hswap : ∀ l₁ l₂ l₃ : List Snapshot, (l₁ ++ (l₂ ++ l₃)).Perm (l₂ ++ (l₁ ++ l₃)) := by
    intro l₁ l₂ l₃
    rw [← List.append_assoc, ← List.append_assoc]
    exact List.perm_append_comm.append_right _
  unfold arrange
  rw [← List.cons_append]
  exact ((hlisting.append_right _).append_left _).trans
    ((hswap _ _ _).trans ((hsplit.append_left _).trans hall))

theorem gaps_arrange (hc : c ∈ reports) (hl : c.Lists u) (hpos : 0 < c.atMs)
    (hearly : ∀ s ∈ reports, ¬ s.Lists u → p s = true → s.atMs < c.atMs)
    (hlate : ∀ s ∈ reports, ¬ s.Lists u → p s = false →
      ∃ d ∈ reports, d.Lists u ∧ d.atMs ≤ s.atMs) (s : Snapshot) :
    s ∈ (CardState.run u {} (arrange u c p reports)).gaps ↔
      (s ∈ reports ∧ ¬ s.Lists u ∧ p s = false) ∧ s.gpuStatus ≠ "ok" := by
  have hmem : c ∈ reports.filter (fun s => s.Lists u) :=
    List.mem_filter.mpr ⟨hc, decide_eq_true hl⟩
  have hsplit : ∀ q : Snapshot → Bool, ∀ x,
      x ∈ (reports.filter (fun s => ¬ s.Lists u)).filter q ↔ x ∈ reports ∧ ¬ x.Lists u ∧ q x := by
    intro q x
    rw [List.mem_filter, List.mem_filter, decide_eq_true_eq, and_assoc]
  unfold arrange
  rw [CardState.gaps_of_arranged _ hl hpos, hsplit, Bool.not_eq_true']
  · intro x hx
    exact of_decide_eq_true (List.mem_filter.mp (List.mem_of_mem_erase hx)).2
  · intro x hx
    obtain ⟨hx, hxl, hxp⟩ := (hsplit _ x).mp hx
    obtain ⟨d, hd, hdl, hdx⟩ := hlate x hx hxl (by simpa using hxp)
    refine ⟨hxl, d, ?_, hdx⟩
    exact (List.perm_cons_erase hmem).mem_iff.mp (List.mem_filter.mpr ⟨hd, decide_eq_true hdl⟩)
  · intro x hx
    obtain ⟨hx, hxl, hxp⟩ := (hsplit _ x).mp hx
    exact ⟨hxl, hearly x hx hxl hxp⟩

theorem Interrupts.getLast?_eq {l₁ l₂ : List Snapshot} (hint : Interrupts reports e g f)
    (he : e ∈ reports) (hg : g ∈ e.gpus) (hmem : ∀ {s}, s ∈ reports ↔ s ∈ l₁ ++ f :: l₂)
    (hasc : Ascending Snapshot.atMs (l₁ ++ f :: l₂)) (hgaps : ∀ s ∈ gaps, f.atMs < s.atMs) :
    (l₁.filter (fun s => Seen g.uuid e.bootID gaps s)).getLast? = some e := by
  obtain ⟨-, -, -, -, hlt, -, hnext⟩ := hint
  obtain ⟨hasc₁, hasc₂, hcross⟩ := List.pairwise_append.mp hasc
  have hbefore : ∀ s ∈ l₁, s.atMs < f.atMs := fun s hs => hcross s hs f List.mem_cons_self
  have hafter : ∀ s ∈ l₂, f.atMs < s.atMs := (List.pairwise_cons.mp hasc₂).1
  have hel : e ∈ l₁ := by
    rcases List.mem_append.mp (hmem.mp he) with hel | hel
    · exact hel
    · rcases List.mem_cons.mp hel with rfl | hel
      · exact absurd hlt (lt_irrefl _)
      · exact absurd (hafter e hel) (lt_asymm hlt)
  refine Ascending.getLast?_eq (List.Pairwise.filter _ hasc₁)
    (List.mem_filter.mpr ⟨hel, decide_eq_true ⟨rfl, .inl ⟨g, hg, rfl⟩⟩⟩) (fun x hx => ?_)
  obtain ⟨hx, hseen⟩ := List.mem_filter.mp hx
  obtain ⟨hxb, hxl | hxg⟩ := of_decide_eq_true hseen
  · apply le_of_not_gt
    intro hlate
    exact hnext x (hmem.mpr (List.mem_append_left _ hx)) hxb hxl ⟨hlate, hbefore x hx⟩
  · exact absurd (hgaps x hxg) (lt_asymm (hbefore x hx))

/-- A report that interrupts a card changes the known time of its client start: before the first
other gap it cuts the interval of the last observation. -/
theorem bootTime_cut (h : Batch nodes n reports) (he : e ∈ reports) (hg : g ∈ e.gpus)
    (hf : f ∈ reports) (hint : Interrupts reports e g f)
    (hgaps : ∀ s ∈ gaps, f.atMs < s.atMs) :
    bootTime n g.uuid reports gaps e.bootID ≠ bootTime n g.uuid reports (f :: gaps) e.bootID := by
  have hasc : Ascending Snapshot.atMs (chronological Snapshot.atMs reports) :=
    chronological_ascending h.times
  obtain ⟨l₁, l₂, hsplit⟩ := List.append_of_mem (mem_chronological.mpr hf)
  rw [hsplit] at hasc
  have hmem : ∀ {s}, s ∈ reports ↔ s ∈ l₁ ++ f :: l₂ := by
    intro s
    rw [← hsplit, mem_chronological]
  obtain ⟨-, hasc₂, hcross⟩ := List.pairwise_append.mp hasc
  have hbefore : ∀ s ∈ l₁, s.atMs < f.atMs := fun s hs => hcross s hs f List.mem_cons_self
  have hafter : ∀ s ∈ l₂, f.atMs < s.atMs := (List.pairwise_cons.mp hasc₂).1
  have ⟨hm, hboot, _, hl, hlt, hle, _⟩ := hint
  have hsame : ∀ s, s.atMs ≠ f.atMs →
      decide (Seen g.uuid e.bootID (f :: gaps) s) = decide (Seen g.uuid e.bootID gaps s) := by
    intro s hs
    have hne : s ≠ f := fun hsf => hs (congrArg Snapshot.atMs hsf)
    rw [decide_eq_decide]
    unfold Seen
    rw [List.mem_cons, or_iff_right hne]
  have hf' : ¬ Seen g.uuid e.bootID gaps f := by
    rintro ⟨-, hfl | hfg⟩
    · exact hl hfl
    · exact lt_irrefl _ (hgaps f hfg)
  have hlast : (l₁.filter (fun s => Seen g.uuid e.bootID gaps s)).getLast? = some e :=
    hint.getLast?_eq he hg hmem hasc hgaps
  have hleft : l₁.filter (fun s => Seen g.uuid e.bootID (f :: gaps) s) =
      l₁.filter (fun s => Seen g.uuid e.bootID gaps s) :=
    List.filter_congr (fun s hs => hsame s (hbefore s hs).ne)
  have hright : l₂.filter (fun s => Seen g.uuid e.bootID (f :: gaps) s) =
      l₂.filter (fun s => Seen g.uuid e.bootID gaps s) :=
    List.filter_congr (fun s hs => hsame s (hafter s hs).ne')
  have hlater : ∀ y ∈ (l₂.filter (fun s => Seen g.uuid e.bootID gaps s)).head?, f.atMs < y.atMs :=
    fun y hy => hafter y (List.mem_filter.mp (List.mem_of_mem_head? hy)).1
  have hcut := knownTime_cut (n := n) (h.accepted e he) hg hm hlt hle hlater
  unfold bootTime
  rw [hsplit, List.filter_append, List.filter_append, List.filter_cons_of_neg (by simpa using hf'),
    List.filter_cons_of_pos (by simp [Seen, hboot]), hleft, hright, chainSum_insert, hlast]
  change _ ≠ _ - _ + knownTime n g.uuid e f + bridge (knownTime n g.uuid) (some f) _
  have hsilent : ∀ later, bridge (knownTime n g.uuid) (some f) later = 0 := by
    rintro (_ | y)
    · rfl
    · exact knownTime_of_not_lists hl y
  rw [hsilent, add_zero]
  intro heq
  apply hcut
  linarith

/-- Failed reports after the last one that lists the card lengthen its known time. -/
theorem bootTime_late (h : Batch nodes n reports) {t : ℤ}
    (hlisted : ∀ s ∈ reports, s.Lists u → s.atMs ≤ t) (hgaps : ∀ s ∈ gaps, ¬ s.Lists u ∧ t < s.atMs)
    (b : String) : bootTime n u reports gaps b = bootTime n u reports [] b +
      bridge (knownTime n u)
        ((chronological Snapshot.atMs reports).filter (fun s => Seen u b [] s)).getLast?
        ((chronological Snapshot.atMs reports).filter (fun s => s.bootID = b ∧ s ∈ gaps)).head? := by
  have hasc : Ascending Snapshot.atMs (chronological Snapshot.atMs reports) :=
    chronological_ascending h.times
  have hsplit : (chronological Snapshot.atMs reports).filter (fun s => Seen u b gaps s) =
      (chronological Snapshot.atMs reports).filter (fun s => Seen u b [] s) ++
        (chronological Snapshot.atMs reports).filter (fun s => s.bootID = b ∧ s ∈ gaps) := by
    rw [← hasc.filter_or (t := t)]
    · apply List.filter_congr
      intro s _
      rw [← Bool.decide_or, decide_eq_decide]
      unfold Seen
      simp only [List.not_mem_nil, or_false, ← and_or_left]
    · intro x hx hseen
      obtain ⟨-, hl | hnil⟩ := of_decide_eq_true hseen
      · exact hlisted x (mem_chronological.mp hx) hl
      · exact absurd hnil List.not_mem_nil
    · exact fun x _ hx => (hgaps x (of_decide_eq_true hx).2).2
  have hsilent : chainSum (knownTime n u) ((chronological Snapshot.atMs reports).filter
      (fun s => s.bootID = b ∧ s ∈ gaps)) = 0 := by
    refine chainSum_eq_zero (fun x hx y => knownTime_of_not_lists ?_ y)
    exact (hgaps x (of_decide_eq_true (List.mem_filter.mp hx).2).2).1
  unfold bootTime
  rw [hsplit, chainSum_append, hsilent, add_zero]

/-- When all reports from before `c` come before it, the failed ones from `c` on leave gaps. -/
theorem mem_gaps_known (hc : c ∈ reports) (hl : c.Lists u) (hpos : 0 < c.atMs) (s : Snapshot) :
    s ∈ (CardState.run u {} (arrange u c (fun s => s.atMs < c.atMs) reports)).gaps ↔
      (s ∈ reports ∧ ¬ s.Lists u ∧ c.atMs ≤ s.atMs) ∧ s.gpuStatus ≠ "ok" := by
  rw [gaps_arrange hc hl hpos]
  · simp only [decide_eq_false_iff_not, not_lt]
  · exact fun x _ _ hx => of_decide_eq_true hx
  · exact fun x _ _ hx => ⟨c, hc, hl, not_lt.mp (of_decide_eq_false hx)⟩

/-- When `f` alone of the reports from before `c` comes after it, it leaves a gap as well. -/
theorem mem_gaps_cut (hc : c ∈ reports) (hl : c.Lists u) (hpos : 0 < c.atMs) (he : e ∈ reports)
    (hel : e.Lists u) (hf : f ∈ reports) (hfl : ¬ f.Lists u) (hfailed : f.gpuStatus ≠ "ok")
    (hlt : e.atMs < f.atMs) (s : Snapshot) :
    s ∈ (CardState.run u {} (arrange u c (fun s => s.atMs < c.atMs ∧ s ≠ f) reports)).gaps ↔
      s ∈ f :: (CardState.run u {} (arrange u c (fun s => s.atMs < c.atMs) reports)).gaps := by
  rw [List.mem_cons, mem_gaps_known hc hl hpos, gaps_arrange hc hl hpos]
  · rw [decide_eq_false_iff_not]
    constructor
    · rintro ⟨⟨hs, hsl, hlate⟩, hsf⟩
      by_cases hfs : s = f
      · exact .inl hfs
      · exact .inr ⟨⟨hs, hsl, not_lt.mp (fun hlt => hlate ⟨hlt, hfs⟩)⟩, hsf⟩
    · rintro (rfl | ⟨⟨hs, hsl, hlate⟩, hsf⟩)
      · exact ⟨⟨hf, hfl, fun hearly => hearly.2 rfl⟩, hfailed⟩
      · exact ⟨⟨hs, hsl, fun hearly => absurd hearly.1 (not_lt.mpr hlate)⟩, hsf⟩
  · exact fun x _ _ hx => (of_decide_eq_true hx).1
  · intro x _ _ hx
    by_cases hxf : x = f
    · rw [hxf]
      exact ⟨e, he, hel, hlt.le⟩
    · exact ⟨c, hc, hl, not_lt.mp (fun hxc => of_decide_eq_false hx ⟨hxc, hxf⟩)⟩

/-- A failed report that arrives first keeps a card that is only listed before it from becoming
live. -/
theorem gaps_of_first (hfl : ¬ f.Lists u)
    (hlatest : ∀ s ∈ reports, s.Lists u → s.atMs ≤ f.atMs) :
    (CardState.run u {} (f :: reports.erase f)).gaps = [] := by
  have hstep := CardState.step_of_not_lists (c := {}) hfl
  have hgap : ¬ CardState.Gap {} f := fun hgap => Bool.false_ne_true hgap.2.1
  rw [if_neg hgap] at hstep
  rw [CardState.run_cons, CardState.run_behind _ (by rw [hstep]), hstep]
  intro s hs hsl
  rw [hstep]
  exact le_max_of_le_right (hlatest s (List.mem_of_mem_erase hs) hsl)

/-- With a later observation at hand, the report that interrupts a card may or may not be the only
further gap. -/
theorem not_interrupts_before (h : Batch nodes n reports) (hi : OrderIndependent nodes reports)
    (he : e ∈ reports) (hg : g ∈ e.gpus) (hf : f ∈ reports) (hint : Interrupts reports e g f)
    (hc : c ∈ reports) (hl : c.Lists g.uuid) (hpos : 0 < c.atMs) (hfc : f.atMs < c.atMs) : False := by
  let known := CardState.run g.uuid {} (arrange g.uuid c (fun s => s.atMs < c.atMs) reports)
  let cut := CardState.run g.uuid {} (arrange g.uuid c (fun s => s.atMs < c.atMs ∧ s ≠ f) reports)
  obtain ⟨-, hboot, hfailed, hfl, hlt, -⟩ := id hint
  have hcut : ∀ s, s ∈ cut.gaps ↔ s ∈ f :: known.gaps :=
    mem_gaps_cut hc hl hpos he ⟨g, hg, rfl⟩ hf hfl hfailed hlt
  have hcutTime : ∀ b, bootTime n g.uuid reports cut.gaps b =
      bootTime n g.uuid reports (f :: known.gaps) b := fun b =>
    bootTime_congr (fun s => and_congr_right (fun _ => or_congr_right (hcut s)))
  have hother : ∀ b ∈ (reports.map Snapshot.bootID).toFinset.erase e.bootID,
      bootTime n g.uuid reports known.gaps b = bootTime n g.uuid reports (f :: known.gaps) b := by
    intro b hb
    refine bootTime_congr (fun s => and_congr_right (fun hs => or_congr_right ?_))
    rw [List.mem_cons, or_iff_right]
    rintro rfl
    exact Finset.ne_of_mem_erase hb (hs.symm.trans hboot)
  have hsum : ∑ b ∈ (reports.map Snapshot.bootID).toFinset, bootTime n g.uuid reports known.gaps b =
      ∑ b ∈ (reports.map Snapshot.bootID).toFinset, bootTime n g.uuid reports cut.gaps b :=
    sum_bootTime_eq h hi (arrange_perm hc hl _) (arrange_perm hc hl _) g.uuid
  have hmem : e.bootID ∈ (reports.map Snapshot.bootID).toFinset :=
    List.mem_toFinset.mpr (List.mem_map_of_mem he)
  simp only [hcutTime] at hsum
  rw [← Finset.add_sum_erase _ _ hmem, ← Finset.add_sum_erase _ _ hmem, Finset.sum_congr rfl hother,
    add_left_inj] at hsum
  refine bootTime_cut h he hg hf hint (fun s hs => ?_) hsum
  exact hfc.trans_le ((mem_gaps_known hc hl hpos s).mp hs).1.2.2

section Late

variable {t : ℤ}

theorem bridge_late_nonneg (h : Batch nodes n reports)
    (hlisted : ∀ s ∈ reports, s.Lists u → s.atMs ≤ t) (hgaps : ∀ s ∈ gaps, ¬ s.Lists u ∧ t < s.atMs)
    (b : String) : 0 ≤ bridge (knownTime n u)
      ((chronological Snapshot.atMs reports).filter (fun s => Seen u b [] s)).getLast?
      ((chronological Snapshot.atMs reports).filter (fun s => s.bootID = b ∧ s ∈ gaps)).head? := by
  cases hx : ((chronological Snapshot.atMs reports).filter (fun s => Seen u b [] s)).getLast? with
  | none => exact le_rfl
  | some x =>
    cases hy : ((chronological Snapshot.atMs reports).filter
        (fun s => s.bootID = b ∧ s ∈ gaps)).head? with
    | none => exact le_rfl
    | some y =>
      obtain ⟨hxr, hxs⟩ := List.mem_filter.mp (List.mem_of_getLast? hx)
      obtain ⟨-, hys⟩ := List.mem_filter.mp (List.mem_of_mem_head? hy)
      have hxr := mem_chronological.mp hxr
      obtain ⟨-, hxl | hnil⟩ := of_decide_eq_true hxs
      · exact knownTime_nonneg (h.accepted x hxr)
          ((hlisted x hxr hxl).trans_lt (hgaps y (of_decide_eq_true hys).2).2)
      · exact absurd hnil List.not_mem_nil

theorem bridge_late_pos (h : Batch nodes n reports)
    (hlisted : ∀ s ∈ reports, s.Lists g.uuid → s.atMs ≤ t)
    (hgaps : ∀ s ∈ gaps, ¬ s.Lists g.uuid ∧ t < s.atMs) (he : e ∈ reports) (hg : g ∈ e.gpus)
    (hf : f ∈ reports) (hint : Interrupts reports e g f) (hfg : f ∈ gaps) :
    0 < bridge (knownTime n g.uuid)
      ((chronological Snapshot.atMs reports).filter (fun s => Seen g.uuid e.bootID [] s)).getLast?
      ((chronological Snapshot.atMs reports).filter
        (fun s => s.bootID = e.bootID ∧ s ∈ gaps)).head? := by
  obtain ⟨hm, hboot, -, -, hlt, hle, hnext⟩ := hint
  have hasc : Ascending Snapshot.atMs (chronological Snapshot.atMs reports) :=
    chronological_ascending h.times
  have hlast : ((chronological Snapshot.atMs reports).filter
      (fun s => Seen g.uuid e.bootID [] s)).getLast? = some e := by
    refine Ascending.getLast?_eq (List.Pairwise.filter _ hasc) (List.mem_filter.mpr
      ⟨mem_chronological.mpr he, decide_eq_true ⟨rfl, .inl ⟨g, hg, rfl⟩⟩⟩) (fun x hx => ?_)
    obtain ⟨hxr, hxs⟩ := List.mem_filter.mp hx
    have hxr := mem_chronological.mp hxr
    obtain ⟨hxb, hxl | hnil⟩ := of_decide_eq_true hxs
    · exact le_of_not_gt (fun hlate =>
        hnext x hxr hxb hxl ⟨hlate, (hlisted x hxr hxl).trans_lt (hgaps f hfg).2⟩)
    · exact absurd hnil List.not_mem_nil
  have hgap : f ∈ (chronological Snapshot.atMs reports).filter
      (fun s => s.bootID = e.bootID ∧ s ∈ gaps) :=
    List.mem_filter.mpr ⟨mem_chronological.mpr hf, decide_eq_true ⟨hboot, hfg⟩⟩
  cases hy : ((chronological Snapshot.atMs reports).filter
      (fun s => s.bootID = e.bootID ∧ s ∈ gaps)).head? with
  | none =>
    rw [List.head?_eq_none_iff.mp hy] at hgap
    exact absurd hgap List.not_mem_nil
  | some y =>
    have hyf : y.atMs ≤ f.atMs := Ascending.head_le (List.Pairwise.filter _ hasc) hy hgap
    obtain ⟨-, hys⟩ := List.mem_filter.mp (List.mem_of_mem_head? hy)
    have hey : e.atMs < y.atMs :=
      (hlisted e he ⟨g, hg, rfl⟩).trans_lt (hgaps y (of_decide_eq_true hys).2).2
    rw [hlast]
    exact knownTime_pos (h.accepted e he) hg hm hey (by omega)

end Late

/-- When no observation follows, the first of the reports that interrupt a card keeps it from
becoming live, or all of them prolong its known time. -/
theorem not_interrupts_after (h : Batch nodes n reports) (hi : OrderIndependent nodes reports)
    (he : e ∈ reports) (hg : g ∈ e.gpus) (hf : f ∈ reports) (hint : Interrupts reports e g f)
    (hc : c ∈ reports) (hl : c.Lists g.uuid) (hpos : 0 < c.atMs)
    (hlatest : ∀ s ∈ reports, s.Lists g.uuid → s.atMs ≤ c.atMs) (hcf : c.atMs < f.atMs) : False := by
  let known := CardState.run g.uuid {} (arrange g.uuid c (fun s => s.atMs < c.atMs) reports)
  obtain ⟨-, -, hfailed, hfl, -⟩ := id hint
  have hgaps : ∀ s ∈ known.gaps, ¬ s.Lists g.uuid ∧ c.atMs < s.atMs := by
    intro s hs
    obtain ⟨⟨hsr, hsl, hat⟩, -⟩ := (mem_gaps_known hc hl hpos s).mp hs
    refine ⟨hsl, lt_of_le_of_ne hat (fun heq => hsl ?_)⟩
    rw [← List.inj_on_of_nodup_map h.times hc hsr heq]
    exact hl
  have hfg : f ∈ known.gaps := (mem_gaps_known hc hl hpos f).mpr ⟨⟨hf, hfl, hcf.le⟩, hfailed⟩
  have hsum : ∑ b ∈ (reports.map Snapshot.bootID).toFinset, bootTime n g.uuid reports known.gaps b =
      ∑ b ∈ (reports.map Snapshot.bootID).toFinset, bootTime n g.uuid reports
        (CardState.run g.uuid {} (f :: reports.erase f)).gaps b :=
    sum_bootTime_eq h hi (arrange_perm hc hl _) (List.perm_cons_erase hf).symm g.uuid
  rw [gaps_of_first hfl (fun s hs hsl => (hlatest s hs hsl).trans hcf.le)] at hsum
  refine hsum.not_gt (Finset.sum_lt_sum (fun b _ => ?_)
    ⟨e.bootID, List.mem_toFinset.mpr (List.mem_map_of_mem he), ?_⟩)
  · rw [bootTime_late h hlatest hgaps]
    exact le_add_of_nonneg_right (bridge_late_nonneg h hlatest hgaps b)
  · rw [bootTime_late h hlatest hgaps]
    exact lt_add_of_pos_right _ (bridge_late_pos h hlatest hgaps he hg hf hint hfg)

theorem uninterrupted_of_orderIndependent (h : Batch nodes n reports)
    (hi : OrderIndependent nodes reports) : Uninterrupted reports := by
  intro e he g hg f hf hint r hr hrl
  by_contra hpos
  cases hlatest : latest Snapshot.atMs (reports.filter (fun s => s.Lists g.uuid)) with
  | none =>
    have hmem : r ∈ reports.filter (fun s => s.Lists g.uuid) :=
      List.mem_filter.mpr ⟨hr, decide_eq_true hrl⟩
    rw [latest_eq_none.mp hlatest] at hmem
    exact absurd hmem List.not_mem_nil
  | some c =>
    obtain ⟨hmem, hmax⟩ := latest_spec hlatest
    obtain ⟨hc, hl⟩ := List.mem_filter.mp hmem
    have hl : c.Lists g.uuid := of_decide_eq_true hl
    have hlate : ∀ s ∈ reports, s.Lists g.uuid → s.atMs ≤ c.atMs := fun s hs hsl =>
      hmax s (List.mem_filter.mpr ⟨hs, decide_eq_true hsl⟩)
    have hcpos : 0 < c.atMs := (not_le.mp hpos).trans_le (hlate r hr hrl)
    rcases lt_trichotomy f.atMs c.atMs with hfc | hfc | hfc
    · exact not_interrupts_before h hi he hg hf hint hc hl hcpos hfc
    · rw [← List.inj_on_of_nodup_map h.times hf hc hfc] at hl
      exact hint.2.2.2.1 hl
    · exact not_interrupts_after h hi he hg hf hint hc hl hcpos hlate hfc

end Necessary

/-- The numbers are independent of the order of arrival exactly when no failed report interrupts
a card. -/
theorem orderIndependent_iff {nodes : Table NodeRow NodeRow.id} {n : String}
    {reports : List Snapshot} (h : Batch nodes n reports) :
    OrderIndependent nodes reports ↔ Uninterrupted reports :=
  ⟨uninterrupted_of_orderIndependent h, orderIndependent_of_uninterrupted h⟩

theorem batch_node (now : ℤ) {reports : List Snapshot} (hnode : ∀ s ∈ reports, s.nodeID = "n")
    (hvalid : ∀ s ∈ reports, validate now s = .ok ()) (hids : (reports.map Snapshot.identity).Nodup)
    (htimes : (reports.map Snapshot.atMs).Nodup) : Batch (node "n") "n" reports :=
  ⟨by decide, hnode, fun s hs => ⟨now, hvalid s hs⟩, hids, htimes⟩

/-- An enumeration that fails long after the last observation. -/
def outageReports : List Snapshot :=
  [sample "n" 1 1700000041000, sample "n" 2 1700000046000, failedSample "n" 3 1700000061000,
    sample "n" 4 1700000066000]

theorem orderIndependent_iff_outage : OrderIndependent (node "n") outageReports :=
  (orderIndependent_iff (batch_node 1700000071000 (by decide +kernel) (by decide +kernel)
    (by decide +kernel) (by decide +kernel))).mpr (by decide +kernel)

/-- An enumeration that fails between two observations: it cuts the interval between them only
when the hub knows the card by then. -/
theorem arrival_order_matters :
    ¬ ∀ (nodes : Table NodeRow NodeRow.id) (n : String) (reports : List Snapshot),
      Batch nodes n reports → OrderIndependent nodes reports := by
  intro h
  let a := sample "n" 1 1700000041000
  let f := failedSample "n" 2 1700000046000
  let c := sample "n" 3 1700000051000
  have hbatch : Batch (node "n") "n" [a, f, c] :=
    batch_node 1700000071000 (by decide +kernel) (by decide +kernel) (by decide +kernel)
      (by decide +kernel)
  have hsame := h (node "n") "n" [a, f, c] hbatch
    [(1700000071000, a), (1700000071000, f), (1700000071000, c)]
    [(1700000071000, f), (1700000071000, a), (1700000071000, c)]
    ⟨.refl _, by decide +kernel⟩ ⟨.swap a f [c], by decide +kernel⟩
    ⟨"n", "GPU-test", "", 60000, 1700000040000⟩
  exact absurd hsame (by decide +kernel)

end CardScope.Arrival
