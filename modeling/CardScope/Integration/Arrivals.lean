import CardScope.Ingestion.Intake
import CardScope.Integration.SingleCount

/-! # A report on the timelines

A report with a new time adds one point to the timeline of each card that it observes, between
the points found by the lookups around its time, and leaves the other timelines alone.
-/

namespace CardScope.Integration
open Library Model Hub Ingestion

variable {n u b : String} {now : ℤ} {st tx st' : Store} {s full : Snapshot} {node : NodeRow}

theorem observes_iff (h : Recorded now st s node full tx st') (u : String) :
    Observes st s u ↔ full.Lists u := by
  constructor
  · rintro (hl | ⟨hok, row, hrow, hid, g, hg, rfl, hcarries⟩)
    · exact (h.full_lists u).mpr (.inl hl)
    · obtain rfl : row = node := Table.eq_of_key hrow h.node_mem.1 (hid.trans h.node_mem.2.symm)
      exact (h.full_lists _).mpr (.inr ⟨hok, ⟨g, hg, rfl⟩, hcarries.2⟩)
  · rintro ⟨g, hg, rfl⟩
    exact observes_of_mem_full h hg

/-- A report that observes the card adds a point to its timeline, right after the point found
before the report and right before the one found after it. -/
theorem timeline_insert_of_recorded (h : Recorded now st s node full tx st')
    (hc : Consistent st s.nodeID) (hi : Integrated st s.nodeID) (hi' : Integrated st' s.nodeID)
    (hdistinct : DistinctTimes st') (hobs : Observes st s u) :
    ∃ l₁ l₂ p, p.atMs = s.atMs ∧ (∃ g ∈ full.gpus, g.uuid = u ∧ p = pointOf s g) ∧
      st.timeline s.nodeID u s.bootID = l₁ ++ l₂ ∧
      st'.timeline s.nodeID u s.bootID = l₁ ++ p :: l₂ ∧
      st.pointBefore s.nodeID u s.bootID s.atMs = l₁.getLast? ∧
      st.pointAfter s.nodeID u s.bootID s.atMs = l₂.head? := by
  obtain ⟨g, hg, rfl⟩ := (observes_iff h u).mp hobs
  have hfull := h.full_nodup (hc.live_nodup node h.node_mem.1 h.node_mem.2)
  have htimes := hi.times g.uuid s.bootID
  obtain ⟨l₁, l₂, hl, hl', h₁, h₂⟩ := chronological_cons (pointOf s g)
    (st.lanePoints s.nodeID g.uuid s.bootID) (free_of_distinct h hc hdistinct g.uuid)
  refine ⟨l₁, l₂, pointOf s g, rfl, ⟨g, hg, rfl, rfl⟩, hl, ?_,
    pointBefore_eq htimes hl h₁ h₂, pointAfter_eq htimes hl h₁ h₂⟩
  have hold : Ascending Point.atMs (l₁ ++ l₂) := hl ▸ chronological_ascending htimes
  refine Ascending.ext (chronological_ascending (hi'.times g.uuid s.bootID)) (hold.insert h₁ h₂)
    (fun x => ?_)
  have hcard : (s.nodeID = s.nodeID ∧ s.bootID = s.bootID ∧
      ∃ g' ∈ full.gpus, g'.uuid = g.uuid ∧ pointOf s g' = x) ↔ x = pointOf s g := by
    constructor
    · rintro ⟨-, -, g', hg', hu, rfl⟩
      rw [List.inj_on_of_nodup_map hfull hg' hg hu]
    · rintro rfl
      exact ⟨rfl, rfl, g, hg, rfl, rfl⟩
  have hmem : x ∈ l₁ ++ pointOf s g :: l₂ ↔
      x ∈ pointOf s g :: st.lanePoints s.nodeID g.uuid s.bootID := by
    rw [← hl']
    exact mem_chronological
  rw [hmem, List.mem_cons, ← hcard, ← h.mem_lanePoints]
  exact mem_chronological

theorem timeline_of_unobserved (h : Recorded now st s node full tx st')
    (hi : Integrated st s.nodeID) (hi' : Integrated st' s.nodeID) (hobs : ¬ Observes st s u) :
    st'.timeline s.nodeID u s.bootID = st.timeline s.nodeID u s.bootID := by
  refine Ascending.ext (chronological_ascending (hi'.times u s.bootID))
    (chronological_ascending (hi.times u s.bootID)) (fun x => ?_)
  refine mem_chronological.trans (Iff.trans ?_ mem_chronological.symm)
  rw [h.mem_lanePoints]
  apply or_iff_right
  rintro ⟨-, -, g, hg, rfl, -⟩
  exact hobs ((observes_iff h g.uuid).mpr ⟨g, hg, rfl⟩)

theorem distinctTimes_of_intake {nodes : Table NodeRow NodeRow.id} {calls : List (ℤ × Snapshot)}
    (h : Intake nodes n calls) (htimes : ((calls.map Prod.snd).map Snapshot.atMs).Nodup) :
    DistinctTimes (runIngest (freshStore nodes) calls) := by
  intro r hr r' hr' _ _ hat
  obtain ⟨s, hs, rfl⟩ := (h.stored.1 r).mp hr
  obtain ⟨s', hs', rfl⟩ := (h.stored.1 r').mp hr'
  rw [List.inj_on_of_nodup_map htimes hs hs' hat]

end CardScope.Integration
