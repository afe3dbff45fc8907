import CardScope.Ingestion.Effects

/-! # Events of one card

The events of each kind that one report adds for a card. Only the events of a begin are ever
changed later.
-/

namespace CardScope.Ingestion
open Library Model Hub

def IsOf (n u : String) (kind : EventKind) (e : EventRow) : Prop :=
  e.node = n ∧ e.uuid = u ∧ e.kind = kind

instance (n u : String) (kind : EventKind) (e : EventRow) : Decidable (IsOf n u kind e) :=
  inferInstanceAs (Decidable (e.node = n ∧ e.uuid = u ∧ e.kind = kind))

def eventsOf (st : Store) (n u : String) (kind : EventKind) : List EventRow :=
  st.events.filter (fun e => IsOf n u kind e)

variable {n u : String} {kind : EventKind} {now : ℤ} {st tx tx' st' : Store} {s full : Snapshot}
  {node : NodeRow} {g : GPU}

theorem startedEvents_of_kind (hk : kind ≠ .started) (s : Snapshot) (g : GPU)
    (before after : Option Point) (events : List EventRow) :
    (startedEvents s g before after events).filter (fun e => IsOf n u kind e) =
      events.filter (fun e => IsOf n u kind e) := by
  unfold startedEvents
  split_ifs
  · exact List.filter_cons_of_neg (fun hof => hk (of_decide_eq_true hof).2.2.symm)
  · rw [List.filter_map]
    conv_rhs => rw [← List.map_id (events.filter _)]
    have hsame : ((fun e => decide (IsOf n u kind e)) ∘ fun e : EventRow =>
        if e.node = s.nodeID ∧ e.uuid = g.uuid ∧ e.kind = .started ∧ e.detail.boot = some s.bootID
        then { e with atMs := min e.atMs s.atMs } else e) = fun e => decide (IsOf n u kind e) := by
      funext e
      simp only [Function.comp_apply]
      split_ifs <;> rfl
    rw [hsame]
    apply List.map_congr_left
    intro e he
    have hkind : e.kind = kind := (of_decide_eq_true (List.mem_filter.mp he).2).2.2
    rw [if_neg (fun hown => hk (hkind.symm.trans hown.2.2.1)), id]
  · rfl

def failureEvent (s : Snapshot) (g : GPU) : EventRow :=
  ⟨s.nodeID, g.uuid, s.atMs, .failure,
    { status := some g.status, processStatus := some g.processStatus, fields := some g.fields }⟩

theorem failureEvents_eq (s : Snapshot) (g : GPU) (before : Option Point)
    (events : List EventRow) : failureEvents s g before events =
      if g.status ≠ "ok" ∧ ∀ p ∈ before, p.status = "ok" then failureEvent s g :: events
      else events := by
  have hcond : (g.status != "ok" && before.all (fun p => p.status == "ok")) =
      decide (g.status ≠ "ok" ∧ ∀ p ∈ before, p.status = "ok") := by
    rw [Bool.eq_iff_iff]
    cases before <;> simp
  unfold failureEvents
  simp only [hcond, decide_eq_true_eq]
  rfl

theorem failureEvents_of_kind (hk : kind ≠ .failure) (s : Snapshot) (g : GPU)
    (before : Option Point) (events : List EventRow) :
    (failureEvents s g before events).filter (fun e => IsOf n u kind e) =
      events.filter (fun e => IsOf n u kind e) := by
  rw [failureEvents_eq]
  split_ifs
  · exact List.filter_cons_of_neg (fun hof => hk (of_decide_eq_true hof).2.2.symm)
  · rfl

/-- The cards of a report add events of a begin and of a failure only. -/
theorem eventsOf_observed {cards : List GPU} (h : cards.foldlM (observe s) tx = .ok tx')
    (hs : kind ≠ .started) (hf : kind ≠ .failure) : eventsOf tx' n u kind = eventsOf tx n u kind :=
  foldlM_invariant (observe s) (fun _ t => eventsOf t n u kind = eventsOf tx n u kind)
    (by
      intro g rest t t' ht hstep
      rw [eventsOf, observe_events hstep, failureEvents_of_kind hf, startedEvents_of_kind hs]
      exact ht) rfl h

def missingEvent (n u : String) (time : ℤ) : EventRow :=
  ⟨n, u, time, .missing, { status := some "not_detected" }⟩

/-- What a report adds after its cards are missing events only. -/
theorem Recorded.eventsOf_of_kind (h : Recorded now st s node full tx st') (hk : kind ≠ .missing) :
    eventsOf st' n u kind = eventsOf tx n u kind := by
  have hmissing : ∀ l, (missingEvents full l).filter (fun e => IsOf n u kind e) = [] := by
    intro l
    apply List.filter_eq_nil_iff.mpr
    intro e he hof
    obtain ⟨g, -, rfl⟩ := List.mem_map.mp (List.mem_reverse.mp he)
    exact hk (of_decide_eq_true hof).2.2.symm
  rw [eventsOf, h.events_eq, List.filter_append]
  split_ifs
  · rw [hmissing]
    rfl
  · rfl

/-- A newer successful enumeration reports a card of the live state that it does not list. -/
def ReportsMissing (s : Snapshot) (node : NodeRow) (u : String) : Prop :=
  s.atMs > node.sampleAt ∧ s.gpuStatus = "ok" ∧ ¬ s.Lists u ∧
    ∃ g ∈ node.snapshot.gpus, g.uuid = u ∧ g.status ≠ "not_detected"

instance (s : Snapshot) (node : NodeRow) (u : String) : Decidable (ReportsMissing s node u) :=
  inferInstanceAs (Decidable (s.atMs > node.sampleAt ∧ s.gpuStatus = "ok" ∧ ¬ s.Lists u ∧
    ∃ g ∈ node.snapshot.gpus, g.uuid = u ∧ g.status ≠ "not_detected"))

theorem missingEvents_of {missing : List GPU} (hn : (missing.map GPU.uuid).Nodup) (n u : String) :
    (missingEvents s missing).filter (fun e => IsOf n u .missing e) =
      if s.nodeID = n ∧ ∃ g ∈ missing, g.uuid = u ∧ g.status ≠ "not_detected"
      then [missingEvent n u s.atMs] else [] := by
  have hevents : missingEvents s missing = (((missing.filter (fun g => g.status ≠ "not_detected")).map
      GPU.uuid).map (fun v => missingEvent s.nodeID v s.atMs)).reverse := by
    rw [missingEvents, List.map_map]
    rfl
  have hmem : u ∈ (missing.filter (fun g => g.status ≠ "not_detected")).map GPU.uuid ↔
      ∃ g ∈ missing, g.uuid = u ∧ g.status ≠ "not_detected" := by
    simp only [List.mem_map, List.mem_filter, decide_eq_true_eq, and_assoc]
    exact exists_congr (fun g => and_congr_right (fun _ => and_comm))
  have hnodup : ((missing.filter (fun g => g.status ≠ "not_detected")).map GPU.uuid).Nodup :=
    (List.filter_sublist.map GPU.uuid).nodup hn
  rw [hevents, List.filter_reverse, List.filter_map]
  by_cases hid : s.nodeID = n
  · have hpick : ((fun e => decide (IsOf n u .missing e)) ∘
        fun v => missingEvent s.nodeID v s.atMs) = fun v => decide (v = u) := by
      funext v
      simp [IsOf, missingEvent, hid]
    rw [hpick, List.filter_eq, hnodup.count, hid]
    by_cases hu : ∃ g ∈ missing, g.uuid = u ∧ g.status ≠ "not_detected"
    · rw [if_pos (hmem.mpr hu), if_pos ⟨rfl, hu⟩]
      rfl
    · rw [if_neg (fun hm => hu (hmem.mp hm)), if_neg (fun hc => hu hc.2)]
      rfl
  · have hpick : ((fun e => decide (IsOf n u .missing e)) ∘
        fun v => missingEvent s.nodeID v s.atMs) = fun _ => false := by
      funext v
      simp [IsOf, missingEvent, hid]
    rw [hpick, if_neg (fun hc => hid hc.1)]
    simp

/-- A report adds at most one missing event of a card. -/
theorem Recorded.eventsOf_missing (h : Recorded now st s node full tx st')
    (hc : Consistent st s.nodeID) (u : String) : eventsOf st' s.nodeID u .missing =
      (if ReportsMissing s node u then [missingEvent s.nodeID u s.atMs] else []) ++
        eventsOf st s.nodeID u .missing := by
  have htx : eventsOf tx s.nodeID u .missing = eventsOf (withSample st s h.fresh) s.nodeID u .missing :=
    eventsOf_observed h.observed (by simp) (by simp)
  have hstart : eventsOf (withSample st s h.fresh) s.nodeID u .missing =
      eventsOf st s.nodeID u .missing := rfl
  have hstatus : full.gpuStatus = s.gpuStatus := by rw [h.full_eq]
  have hlive := hc.live_nodup node h.node_mem.1 h.node_mem.2
  have hnodup : ((missingGPUs full node).map GPU.uuid).Nodup := by
    unfold missingGPUs
    split_ifs
    · exact (List.filter_sublist.map GPU.uuid).nodup hlive
    · exact List.nodup_nil
  rw [← hstart, ← htx, eventsOf, h.events_eq, List.filter_append]
  apply congrArg (fun new => new ++ eventsOf tx s.nodeID u .missing)
  by_cases hnewer : s.atMs > node.sampleAt
  · rw [if_pos hnewer, missingEvents_of hnodup, h.nodeID_full, h.atMs_full]
    refine if_congr ?_ rfl rfl
    unfold missingGPUs ReportsMissing
    rw [hstatus]
    by_cases hok : s.gpuStatus = "ok"
    · rw [if_pos hok]
      have hlists : full.Lists u ↔ s.Lists u := by
        rw [h.full_lists]
        exact or_iff_left (fun hgap => hgap.1 hok)
      simp only [true_and, hnewer, hok, List.mem_filter, decide_eq_true_eq]
      constructor
      · rintro ⟨g, ⟨hg, hl⟩, rfl, hst⟩
        exact ⟨fun hs => hl (hlists.mpr hs), g, hg, rfl, hst⟩
      · rintro ⟨hl, g, hg, rfl, hst⟩
        exact ⟨g, ⟨hg, fun hs => hl (hlists.mp hs)⟩, rfl, hst⟩
    · simp [hok]
  · rw [if_neg hnewer, if_neg (fun hr => hnewer hr.1)]
    rfl

end CardScope.Ingestion
