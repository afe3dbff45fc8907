import CardScope.Integration.Timeline

/-! # No second of a card is counted twice

The intervals of a timeline do not overlap, so what they add to the whole-card rows is at
most the time between the first and the last sample. Two samples of equal time break this:
neither is a neighbour of the other, and both are linked to the same earlier point.
-/

namespace CardScope.Integration
open Library Model Hub Ingestion

abbrev cardRows (node uuid : String) (res : ℤ) : RollupKey → Bool :=
  rowsOf node uuid "" res (fun _ => true)

def sampledSpan (st : Store) : ℤ :=
  (latest SampleRow.atMs st.samples.rows).elim 0 SampleRow.atMs -
    (earliest SampleRow.atMs st.samples.rows).elim 0 SampleRow.atMs

section Span

variable {node uuid : String} {a b : Point} {res : ℤ}

theorem total_rowsOf (h : Bridged a b) (hres : res = 60000 ∨ res = 3600000) (user : String) :
    total (rowsOf node uuid user res (fun _ => true)) (contributions node uuid a b) =
      (((b.atMs - a.atMs : ℤ) : ℚ) / 1000) • rate a user := by
  have hpos : 0 < res := by omega
  rw [total_contributions h hres]
  simp only [if_true]
  rw [show (fun s : Slice => s.span) = Slice.span from rfl, sum_span_slices hpos h.1.le]

theorem total_cardRows (ha : Sound a) (h : Bridged a b) (hres : res = 60000 ∨ res = 3600000) :
    total (cardRows node uuid res) (contributions node uuid a b) =
      (((b.atMs - a.atMs : ℤ) : ℚ) / 1000) • cardMeasures a 1 := by
  rw [cardRows, total_rowsOf h hres, rate_card ha]

theorem total_cardRows_le (φ : Measures →ₗ[ℚ] ℚ) (hφ : ∀ a, φ (cardMeasures a 1) ≤ 1)
    (ha : Sound a) (hlt : a.atMs < b.atMs) (hres : res = 60000 ∨ res = 3600000) :
    φ (total (cardRows node uuid res) (contributions node uuid a b)) ≤
      (b.atMs : ℚ) / 1000 - (a.atMs : ℚ) / 1000 := by
  have hspan : (0 : ℚ) ≤ ((b.atMs - a.atMs : ℤ) : ℚ) / 1000 := by
    have h : (0 : ℚ) ≤ ((b.atMs - a.atMs : ℤ) : ℚ) := by
      exact_mod_cast (sub_pos.mpr hlt).le
    positivity
  have hsub : (b.atMs : ℚ) / 1000 - (a.atMs : ℚ) / 1000 = ((b.atMs - a.atMs : ℤ) : ℚ) / 1000 := by
    rw [← sub_div, Int.cast_sub]
  rw [hsub]
  by_cases h : Bridged a b
  · rw [total_cardRows ha h hres, map_smul, smul_eq_mul]
    exact mul_le_of_le_one_right hspan (hφ a)
  · rw [contributions_of_not_bridged h, total_nil, map_zero]
    exact hspan

end Span

section Bound

variable {st : Store} {n b u : String} {res : ℤ}

theorem sampledSpan_spec (st : Store) : ∃ lo hi : ℤ, sampledSpan st = hi - lo ∧ lo ≤ hi ∧
    ∀ r ∈ st.samples, lo ≤ r.atMs ∧ r.atMs ≤ hi := by
  unfold sampledSpan
  cases hl : latest SampleRow.atMs st.samples.rows with
  | none =>
    have hnil := latest_eq_none.mp hl
    refine ⟨0, 0, by rw [hnil]; rfl, le_rfl, fun r hr => ?_⟩
    rw [Table.mem_def, hnil] at hr
    exact absurd hr List.not_mem_nil
  | some l =>
    obtain ⟨hmem, hmax⟩ := latest_spec hl
    cases he : earliest SampleRow.atMs st.samples.rows with
    | none =>
      rw [earliest_eq_none.mp he] at hmem
      exact absurd hmem List.not_mem_nil
    | some e =>
      obtain ⟨-, hmin⟩ := earliest_spec he
      exact ⟨e.atMs, l.atMs, rfl, hmin l hmem, fun r hr => ⟨hmin r hr, hmax r hr⟩⟩

/-- On an integrated node with a single client start, such a measure is bounded by the span. -/
theorem rollupSum_le_span (φ : Measures →ₗ[ℚ] ℚ) (hφ : ∀ a, φ (cardMeasures a 1) ≤ 1)
    (hi : Integrated st n) (hc : Consistent st n) (hd : Drawn Sound st)
    (hboot : ∀ r ∈ st.samples, r.boot = b) (hres : res = 60000 ∨ res = 3600000) :
    φ (st.rollupSum (cardRows n u res)) ≤ (sampledSpan st : ℚ) / 1000 := by
  have hpoint : ∀ c, ∀ x ∈ st.lanePoints n u c,
      c = b ∧ Sound x ∧ ∃ r ∈ st.samples, r.atMs = x.atMs := by
    intro c x hx
    obtain ⟨p, hp, hn, -, hb, rfl⟩ := Store.mem_lanePoints.mp hx
    obtain ⟨r, hr, hk, hat⟩ := hc.point_sample p hp hn
    simp only [SampleRow.key, Prod.mk.injEq] at hk
    exact ⟨by rw [← hb, ← hk.2.1, hboot r hr], hd.points p hp, r, hr, by rw [hat, p.at_data]⟩
  have hlanes : ∀ c, c ∉ ({b} : Finset String) → st.lanePoints n u c = [] := by
    intro c hcb
    refine List.eq_nil_iff_forall_not_mem.mpr (fun x hx => hcb ?_)
    exact Finset.mem_singleton.mpr (hpoint c x hx).1
  have hkeys : ∀ k, cardRows n u res k → k.node = n ∧ k.uuid = u := by
    intro k hk
    simp only [rowsOf, decide_eq_true_eq] at hk
    exact ⟨hk.1, hk.2.1⟩
  obtain ⟨lo, hi', hspan, hle, hbound⟩ := sampledSpan_spec st
  have hasc : Ascending Point.atMs (st.timeline n u b) := chronological_ascending (hi.times u b)
  have hmem : ∀ {x}, x ∈ st.timeline n u b → x ∈ st.lanePoints n u b := mem_chronological.mp
  rw [hi.sums u _ hkeys {b} hlanes, Finset.sum_singleton, hspan, Int.cast_sub, sub_div]
  refine (map_chainSum φ.toAddMonoidHom _ _).le.trans
    (chainSum_le_span (t := fun x : Point => (x.atMs : ℚ) / 1000) ?_ ?_ ?_)
  · exact div_le_div_of_nonneg_right (by exact_mod_cast hle) (by norm_num)
  · intro x y hxy
    exact total_cardRows_le φ hφ (hpoint b x (hmem hxy.mem.1)).2.1 (hasc.lt_of_adjacent hxy) hres
  · intro x hx
    obtain ⟨-, -, r, hr, hat⟩ := hpoint b x (hmem hx)
    obtain ⟨hlo, hhi⟩ := hbound r hr
    rw [hat] at hlo hhi
    constructor
    · exact div_le_div_of_nonneg_right (by exact_mod_cast hlo) (by norm_num)
    · exact div_le_div_of_nonneg_right (by exact_mod_cast hhi) (by norm_num)

end Bound

section Tied

variable {now : ℤ} {st tx st' : Store} {s full : Snapshot} {node : NodeRow}

/-- The report observes the card: it lists it, or its enumeration failed and carries it over. -/
def Observes (st : Store) (s : Snapshot) (uuid : String) : Prop :=
  s.Lists uuid ∨ s.gpuStatus ≠ "ok" ∧ ∃ row ∈ st.nodes.rows, row.id = s.nodeID ∧
    ∃ g ∈ row.snapshot.gpus, g.uuid = uuid ∧ Carries st s g

instance (st : Store) (s : Snapshot) (uuid : String) : Decidable (Observes st s uuid) :=
  inferInstanceAs (Decidable (s.Lists uuid ∨ s.gpuStatus ≠ "ok" ∧ ∃ row ∈ st.nodes.rows,
    row.id = s.nodeID ∧ ∃ g ∈ row.snapshot.gpus, g.uuid = uuid ∧ Carries st s g))

/-- A card that the report observes has a point of its time from another sample. -/
def Tied (st : Store) (s : Snapshot) : Prop := ∃ p ∈ st.points.rows, p.node = s.nodeID ∧
  p.boot = s.bootID ∧ p.atMs = s.atMs ∧ p.seq ≠ s.seq ∧ Observes st s p.uuid

instance (st : Store) (s : Snapshot) : Decidable (Tied st s) :=
  inferInstanceAs (Decidable (∃ p ∈ st.points.rows, p.node = s.nodeID ∧ p.boot = s.bootID ∧
    p.atMs = s.atMs ∧ p.seq ≠ s.seq ∧ Observes st s p.uuid))

theorem observes_of_mem_full (h : Recorded now st s node full tx st') {g : GPU}
    (hg : g ∈ full.gpus) : Observes st s g.uuid := by
  rw [h.full_eq, List.mem_append] at hg
  rcases hg with hg | hg
  · exact .inl ⟨g, hg, rfl⟩
  · unfold carriedOver at hg
    split_ifs at hg with hok
    · exact absurd hg List.not_mem_nil
    · obtain ⟨c, hc, rfl⟩ := List.mem_map.mp hg
      obtain ⟨hc, hcarries⟩ := List.mem_filter.mp hc
      exact .inr ⟨hok, node, h.node_mem.1, h.node_mem.2, c, hc, rfl, of_decide_eq_true hcarries⟩

theorem free_of_not_tied (h : Recorded now st s node full tx st') (hc : Consistent st s.nodeID)
    (htied : ¬ Tied st s) {g : GPU} (hg : g ∈ full.gpus) :
    ∀ x ∈ st.lanePoints s.nodeID g.uuid s.bootID, x.atMs ≠ s.atMs := by
  intro x hx hat
  obtain ⟨p, hp, hn, hu, hb, rfl⟩ := Store.mem_lanePoints.mp hx
  rw [p.at_data] at hat
  have hobserves := observes_of_mem_full h hg
  rw [← hu] at hobserves
  refine htied ⟨p, hp, hn, hb, hat, fun hseq => h.fresh ?_, hobserves⟩
  obtain ⟨r, hr, hk, -⟩ := hc.point_sample p hp hn
  exact ⟨r, hr, by rw [hk, hb, hseq]; rfl⟩

end Tied

/-- The three measures that count seconds of a card never exceed the sampled time. -/
structure CountedOnce (st : Store) (n u : String) (res : ℤ) : Prop where
  occupancyValid :
    (st.rollupSum (cardRows n u res)).occupancyValid ≤ (sampledSpan st : ℚ) / 1000
  occupied : (st.rollupSum (cardRows n u res)).occupied ≤ (sampledSpan st : ℚ) / 1000
  utilValid : (st.rollupSum (cardRows n u res)).utilValid ≤ (sampledSpan st : ℚ) / 1000

/-- In every run of uploads of one node and client start in which no upload ties, no second of
a card is counted twice. -/
theorem countedOnce_of_untied (nodes : Table NodeRow NodeRow.id) (n b : String)
    (calls : List (ℤ × Snapshot)) (hcalls : ∀ c ∈ calls, c.2.nodeID = n ∧ c.2.bootID = b)
    (huntied : Along (fun st c => ingested c.1 st c.2) (fun st c => ¬ Tied st c.2)
      (freshStore nodes) calls) (u : String) (res : ℤ) (hres : res = 60000 ∨ res = 3600000) :
    CountedOnce (runIngest (freshStore nodes) calls) n u res := by
  obtain ⟨hc, hd, hi, hsamples⟩ := foldl_invariant_along
    (fun st => (∀ m, Consistent st m) ∧ Drawn Sound st ∧ Integrated st n ∧
      ∀ r ∈ st.samples, r.boot = b)
    (by
      rintro st c hmem ⟨hc, hd, hi, hsamples⟩ htied
      rcases ingested_cases c.1 st c.2 with h | ⟨node, full, tx, h⟩
      · rw [h]
        exact ⟨hc, hd, hi, hsamples⟩
      · refine ⟨fun m => h.consistent (hc m), h.drawn hd (fun g => sound_pointOf h.accepted),
          integrated_of_recorded h hi hd (hc _) (fun hn g hg => ?_)
            (fun g => sound_pointOf h.accepted), fun r hr => ?_⟩
        · rw [← hn]
          exact free_of_not_tied h (hc _) htied hg
        · rw [h.samples_eq, Table.mem_insert] at hr
          rcases hr with rfl | hr
          · exact (hcalls c hmem).2
          · exact hsamples r hr)
    huntied
    ⟨consistent_freshStore nodes, drawn_freshStore _ nodes, integrated_freshStore nodes n,
      fun r hr => absurd hr (Table.not_mem_empty r)⟩
  have hle : ∀ c : Bool, (if c then (1 : ℚ) else 0) ≤ 1 := by
    intro c
    cases c <;> norm_num
  constructor
  · exact rollupSum_le_span ⟨⟨Measures.occupancyValid, fun _ _ => rfl⟩, fun _ _ => rfl⟩
      (fun a => hle a.processValid) hi (hc n) hd hsamples hres
  · exact rollupSum_le_span ⟨⟨Measures.occupied, fun _ _ => rfl⟩, fun _ _ => rfl⟩
      (fun a => hle (a.processValid && a.occupied)) hi (hc n) hd hsamples hres
  · exact rollupSum_le_span ⟨⟨Measures.utilValid, fun _ _ => rfl⟩, fun _ _ => rfl⟩
      (fun a => hle a.util.isSome) hi (hc n) hd hsamples hres

/-- The late samples do not tie. -/
theorem countedOnce_of_untied_late : CountedOnce (runIngest (freshStore (node "n")) lateCalls)
    "n" "GPU-test" 60000 :=
  countedOnce_of_untied (node "n") "n" "boot-one" lateCalls (by decide +kernel)
    (by decide +kernel) "GPU-test" 60000 (.inl rfl)

/-- Two samples of one time after an earlier one: its interval is counted for both. -/
def tiedCalls : List (ℤ × Snapshot) :=
  [(1, 1700000041000), (2, 1700000046000), (3, 1700000046000)].map (fun x =>
    (1700000071000, sample "n" x.1 x.2))

theorem interval_counted_twice : ¬ ∀ (nodes : Table NodeRow NodeRow.id) (n b : String)
    (calls : List (ℤ × Snapshot)),
    (∀ c ∈ calls, c.2.nodeID = n ∧ c.2.bootID = b ∧ validate c.1 c.2 = .ok ()) →
    (calls.map (fun c => c.2.seq)).Nodup → ∀ u res, res = 60000 ∨ res = 3600000 →
      CountedOnce (runIngest (freshStore nodes) calls) n u res := by
  intro h
  have hcounted := (h (node "n") "n" "boot-one" tiedCalls (by decide +kernel) (by decide +kernel)
    "GPU-test" 60000 (.inl rfl)).occupied
  exact absurd hcounted (by decide +kernel)

end CardScope.Integration
