import CardScope.Ingestion.Events
import CardScope.Integration.Arrivals
import CardScope.Retention.Transparency

/-! # Begin events

A card gets the event of a begin when the hub finds no point of it at another time in the client
start. That is inferred from the retained points, so the begin of one client start is recorded
again when all its points are gone, or when its only points have the time of the report.
-/

namespace CardScope.Events
open Library Model Hub Ingestion Integration

variable {n u b : String} {now : ℤ} {st tx tx' st' : Store} {s full : Snapshot} {node : NodeRow}
  {g : GPU}

section Lookup

theorem mem_laneRows_iff {st : Store} {n u b : String} (P : Point → Prop) :
    (∀ r ∈ st.laneRows n u b, P r.data) ↔ ∀ p ∈ st.lanePoints n u b, P p := by
  unfold Store.lanePoints Store.laneRows
  exact List.forall_mem_map.symm

theorem pointBefore_eq_none {t : ℤ} :
    st.pointBefore n u b t = none ↔ ∀ p ∈ st.lanePoints n u b, t ≤ p.atMs := by
  rw [← mem_laneRows_iff (fun p => t ≤ p.atMs)]
  unfold Store.pointBefore
  rw [Option.map_eq_none_iff, latest_eq_none, List.filter_eq_nil_iff]
  simp only [decide_eq_true_eq, not_lt, PointRow.at_data]

theorem pointAfter_eq_none {t : ℤ} :
    st.pointAfter n u b t = none ↔ ∀ p ∈ st.lanePoints n u b, p.atMs ≤ t := by
  rw [← mem_laneRows_iff (fun p => p.atMs ≤ t)]
  unfold Store.pointAfter
  rw [Option.map_eq_none_iff, earliest_eq_none, List.filter_eq_nil_iff]
  simp only [List.mem_reverse, decide_eq_true_eq, gt_iff_lt, not_lt, PointRow.at_data]

theorem alone_iff {t : ℤ} : st.pointBefore n u b t = none ∧ st.pointAfter n u b t = none ↔
    ∀ p ∈ st.lanePoints n u b, p.atMs = t := by
  rw [pointBefore_eq_none, pointAfter_eq_none]
  constructor
  · exact fun h p hp => le_antisymm (h.2 p hp) (h.1 p hp)
  · exact fun h => ⟨fun p hp => (h p hp).ge, fun p hp => (h p hp).le⟩

end Lookup

def startsOf (st : Store) (n u b : String) : List EventRow :=
  (eventsOf st n u .started).filter (fun e => e.detail.boot = some b)

/-- Every client start of a card has its begin recorded at most once. -/
def StartedOnce (st : Store) : Prop := ∀ n u b, (startsOf st n u b).length ≤ 1

theorem startsOf_eq (st : Store) (n u b : String) : startsOf st n u b =
    st.events.filter (fun e => IsOf n u .started e ∧ e.detail.boot = some b) := by
  unfold startsOf eventsOf
  rw [List.filter_filter]
  apply List.filter_congr
  intro e _
  rw [Bool.and_comm, Bool.decide_and]

def startEvent (s : Snapshot) (g : GPU) : EventRow :=
  ⟨s.nodeID, g.uuid, s.atMs, .started, { boot := some s.bootID }⟩

def movedBack (t : ℤ) (e : EventRow) : EventRow := { e with atMs := min e.atMs t }

/-- A begin is recorded for a card without points at another time and moved back by a report that
is earlier than all of them; the begins of other cards and client starts stay. -/
theorem filter_startedEvents (s : Snapshot) (g : GPU) (before after : Option Point)
    (events : List EventRow) (n u b : String) :
    (startedEvents s g before after events).filter
      (fun e => IsOf n u .started e ∧ e.detail.boot = some b) =
    let found := events.filter (fun e => IsOf n u .started e ∧ e.detail.boot = some b)
    if (s.nodeID = n ∧ g.uuid = u ∧ s.bootID = b) ∧ before = none then
      if after = none then startEvent s g :: found else found.map (movedBack s.atMs)
    else found := by
  unfold startedEvents
  cases before with
  | some a => simp
  | none =>
    cases after with
    | some c =>
      have hsame : ((fun e => decide (IsOf n u .started e ∧ e.detail.boot = some b)) ∘
          fun e : EventRow => if e.node = s.nodeID ∧ e.uuid = g.uuid ∧ e.kind = .started ∧
            e.detail.boot = some s.bootID then { e with atMs := min e.atMs s.atMs } else e) =
          fun e => decide (IsOf n u .started e ∧ e.detail.boot = some b) := by
        funext e
        simp only [Function.comp_apply]
        split_ifs <;> rfl
      rw [if_neg (by simp), if_pos Option.isNone_none, List.filter_map, hsame]
      by_cases hown : s.nodeID = n ∧ g.uuid = u ∧ s.bootID = b
      · rw [if_pos ⟨hown, rfl⟩, if_neg (by simp)]
        apply List.map_congr_left
        intro e he
        obtain ⟨⟨hn, hu, hk⟩, hb⟩ := of_decide_eq_true (List.mem_filter.mp he).2
        rw [if_pos ⟨hn.trans hown.1.symm, hu.trans hown.2.1.symm, hk, hown.2.2.symm ▸ hb⟩]
        rfl
      · rw [if_neg (fun hc => hown hc.1)]
        conv_rhs => rw [← List.map_id (events.filter _)]
        apply List.map_congr_left
        intro e he
        obtain ⟨⟨hn, hu, -⟩, hb⟩ := of_decide_eq_true (List.mem_filter.mp he).2
        rw [if_neg, id]
        rintro ⟨hn', hu', -, hb'⟩
        exact hown ⟨hn'.symm.trans hn, hu'.symm.trans hu, Option.some.inj (hb'.symm.trans hb)⟩
    | none =>
      rw [if_pos (by simp), List.filter_cons]
      by_cases hown : s.nodeID = n ∧ g.uuid = u ∧ s.bootID = b
      · have hof : IsOf n u .started ⟨s.nodeID, g.uuid, s.atMs, .started, { boot := some s.bootID }⟩ ∧
            some s.bootID = some b := ⟨⟨hown.1, hown.2.1, rfl⟩, by rw [hown.2.2]⟩
        rw [if_pos (decide_eq_true hof), if_pos ⟨hown, rfl⟩, if_pos rfl]
        rfl
      · rw [if_neg (fun hof => hown ?_), if_neg (fun hc => hown hc.1)]
        obtain ⟨⟨hn, hu, -⟩, hb⟩ := of_decide_eq_true hof
        exact ⟨hn, hu, Option.some.inj hb⟩

theorem startsOf_observe_eq (h : observe s tx g = .ok tx') (n u b : String) :
    startsOf tx' n u b =
      if (s.nodeID = n ∧ g.uuid = u ∧ s.bootID = b) ∧ tx.pointBefore n u b s.atMs = none then
        if tx.pointAfter n u b s.atMs = none then startEvent s g :: startsOf tx n u b
        else (startsOf tx n u b).map (movedBack s.atMs)
      else startsOf tx n u b := by
  have hevents : startsOf tx' n u b = (startedEvents s g
      (tx.pointBefore s.nodeID g.uuid s.bootID s.atMs)
      (tx.pointAfter s.nodeID g.uuid s.bootID s.atMs) tx.events).filter
        (fun e => IsOf n u .started e ∧ e.detail.boot = some b) := by
    rw [startsOf, eventsOf, observe_events h, failureEvents_of_kind (by simp), List.filter_filter]
    apply List.filter_congr
    intro e _
    rw [Bool.and_comm, Bool.decide_and]
  rw [hevents, filter_startedEvents, ← startsOf_eq]
  by_cases hown : s.nodeID = n ∧ g.uuid = u ∧ s.bootID = b
  · obtain ⟨rfl, rfl, rfl⟩ := hown
    rfl
  · rw [if_neg (fun hc => hown hc.1), if_neg (fun hc => hown hc.1)]

theorem startsOf_observe (h : observe s tx g = .ok tx') (n u b : String) :
    (startsOf tx' n u b).length = (startsOf tx n u b).length +
      if (s.nodeID = n ∧ g.uuid = u ∧ s.bootID = b) ∧
        ∀ p ∈ tx.lanePoints n u b, p.atMs = s.atMs then 1 else 0 := by
  rw [startsOf_observe_eq h]
  simp only [← alone_iff]
  split_ifs with hown hafter halone halone halone
  · rfl
  · exact absurd ⟨hown.1, hown.2, hafter⟩ halone
  · exact absurd halone.2.2 hafter
  · rw [List.length_map, add_zero]
  · exact absurd ⟨halone.1, halone.2.1⟩ hown
  · rfl

theorem startsOf_observed {cards : List GPU} (hnodup : (cards.map GPU.uuid).Nodup)
    (h : cards.foldlM (observe s) tx = .ok tx') (n u b : String) :
    (startsOf tx' n u b).length = (startsOf tx n u b).length +
      if (s.nodeID = n ∧ s.bootID = b ∧ ∃ g ∈ cards, g.uuid = u) ∧
        ∀ p ∈ tx.lanePoints n u b, p.atMs = s.atMs then 1 else 0 := by
  induction cards generalizing tx with
  | nil =>
    cases h
    simp
  | cons g cards ih =>
    rw [List.foldlM_cons] at h
    cases ho : observe s tx g with
    | error e => simp [ho, bind, Except.bind] at h
    | ok t =>
      simp only [ho, bind, Except.bind] at h
      rw [List.map_cons, List.nodup_cons] at hnodup
      rw [ih hnodup.2 h, startsOf_observe ho, observe_lanePoints ho, add_assoc]
      apply congrArg _
      by_cases hown : s.nodeID = n ∧ g.uuid = u ∧ s.bootID = b
      · -- no later card of the report is this one
        have hlast : ¬ ∃ g' ∈ cards, g'.uuid = u := by
          rintro ⟨g', hg', hu⟩
          exact hnodup.1 (List.mem_map.mpr ⟨g', hg', hu.trans hown.2.1.symm⟩)
        simp [hown, hlast]
      · have hother : ¬ (s.nodeID = n ∧ s.bootID = b ∧ g.uuid = u) :=
          fun hc => hown ⟨hc.1, hc.2.2, hc.2.1⟩
        rw [if_neg (fun hc => hown hc.1), if_neg hown, zero_add]
        refine if_congr (and_congr_left (fun _ => ?_)) rfl rfl
        rw [List.exists_mem_cons_iff]
        tauto

theorem startsOf_of_recorded (h : Recorded now st s node full tx st') (hc : Consistent st s.nodeID)
    (n u b : String) : (startsOf st' n u b).length = (startsOf st n u b).length +
      if (s.nodeID = n ∧ s.bootID = b ∧ Observes st s u) ∧
        ∀ p ∈ st.lanePoints n u b, p.atMs = s.atMs then 1 else 0 := by
  have hlive := hc.live_nodup node h.node_mem.1 h.node_mem.2
  have hobserved := startsOf_observed (h.full_nodup hlive) h.observed n u b
  have hstart : startsOf (withSample st s h.fresh) n u b = startsOf st n u b := rfl
  have hlanes : (withSample st s h.fresh).lanePoints n u b = st.lanePoints n u b := rfl
  have hresult : startsOf st' n u b = startsOf tx n u b := by
    unfold startsOf
    rw [h.eventsOf_of_kind (by simp)]
  rw [hresult, hobserved, hstart, hlanes, h.nodeID_full, h.bootID_full, h.atMs_full]
  refine congrArg _ (if_congr (and_congr_left (fun _ => ?_)) rfl rfl)
  rw [observes_iff h]
  exact Iff.rfl

/-- A begin of the client start is left of a card that the report observes, and the card has no
point at another time. -/
def Restarts (st : Store) (s : Snapshot) : Prop :=
  ∃ e ∈ st.events, e.node = s.nodeID ∧ e.kind = .started ∧ e.detail.boot = some s.bootID ∧
    Observes st s e.uuid ∧ ∀ p ∈ st.lanePoints s.nodeID e.uuid s.bootID, p.atMs = s.atMs

instance (st : Store) (s : Snapshot) : Decidable (Restarts st s) :=
  inferInstanceAs (Decidable (∃ e ∈ st.events, e.node = s.nodeID ∧ e.kind = .started ∧
    e.detail.boot = some s.bootID ∧ Observes st s e.uuid ∧
      ∀ p ∈ st.lanePoints s.nodeID e.uuid s.bootID, p.atMs = s.atMs))

/-- No accepted report restarts a card. -/
def Continues (st : Store) : Event → Prop
  | .ingest now s => Storable now st s → ¬ Restarts st s
  | .prune _ => True

theorem StartedOnce.recorded_iff (hone : StartedOnce st) (hc : Consistent st s.nodeID)
    (h : Recorded now st s node full tx st') : StartedOnce st' ↔ ¬ Restarts st s := by
  constructor
  · rintro hone' ⟨e, he, hn, hk, hb, hobs, halone⟩
    have hcount := startsOf_of_recorded h hc s.nodeID e.uuid s.bootID
    rw [if_pos ⟨⟨rfl, rfl, hobs⟩, halone⟩] at hcount
    have hmem : e ∈ startsOf st s.nodeID e.uuid s.bootID := by
      rw [startsOf_eq]
      exact List.mem_filter.mpr ⟨he, decide_eq_true ⟨⟨hn, rfl, hk⟩, hb⟩⟩
    have hpos := List.length_pos_of_mem hmem
    have hle := hone' s.nodeID e.uuid s.bootID
    omega
  · intro hno n u b
    rw [startsOf_of_recorded h hc n u b]
    split_ifs with hnew
    · obtain ⟨⟨rfl, rfl, hobs⟩, halone⟩ := hnew
      have hnone : startsOf st s.nodeID u s.bootID = [] := by
        refine List.eq_nil_iff_forall_not_mem.mpr (fun e he => hno ?_)
        rw [startsOf_eq] at he
        obtain ⟨hmem, hof⟩ := List.mem_filter.mp he
        obtain ⟨⟨hn, hu, hk⟩, hb⟩ := of_decide_eq_true hof
        subst hu
        exact ⟨e, hmem, hn, hk, hb, hobs, halone⟩
      rw [hnone]
      rfl
    · exact hone n u b

theorem StartedOnce.prune (hone : StartedOnce st) (now : ℤ) : StartedOnce (Hub.prune now st) := by
  intro n u b
  refine le_trans ?_ (hone n u b)
  rw [startsOf_eq, startsOf_eq]
  exact (List.filter_sublist.filter _).length_le

/-- In every run of uploads and cleanups, the begins of all client starts are recorded at most
once throughout the run exactly when no accepted report restarts a card. -/
theorem startedOnce_iff (nodes : Table NodeRow NodeRow.id) (events : List Event) :
    (∀ early, early <+: events → StartedOnce (run (freshStore nodes) early)) ↔
      Along step Continues (freshStore nodes) events := by
  refine forall_prefix_iff_along_of (fun _ st => ∀ n, Consistent st n) StartedOnce ?_ ?_ events
    (consistent_freshStore nodes) (fun n u b => Nat.zero_le _)
  · intro e rest st hc n
    cases e with
    | ingest now s => exact (hc n).ingested now s
    | prune now => exact (hc n).prune now
  · intro e rest st hc hone
    cases e with
    | prune now => exact iff_of_true (hone.prune now) trivial
    | ingest now s =>
      by_cases hst : Storable now st s
      · obtain ⟨node, full, tx, hr⟩ := recorded_of_storable (hc _) hst
        exact (hone.recorded_iff (hc _) hr).trans ⟨fun hno _ => hno, fun hno => hno hst⟩
      · rw [step, ingested_of_not_storable hst]
        exact iff_of_true hone (fun hyes => absurd hyes hst)

/-- A card reports, pauses for more than two days with a cleanup in between, and reports again. -/
def pausedEvents : List Event :=
  [.ingest 1700000041000 (sample "n" 1 1700000041000),
    .prune (1700000041000 + 49 * 3600000),
    .ingest (1700000041000 + 50 * 3600000) (sample "n" 2 (1700000041000 + 50 * 3600000))]

/-- The cleanup deletes the points, and the begin is recorded again while the first is kept. -/
theorem begin_recorded_twice : ¬ ∀ (nodes : Table NodeRow NodeRow.id) (events : List Event),
    (events.map Retention.clock).Pairwise (· ≤ ·) → StartedOnce (run (freshStore nodes) events) := by
  intro h
  have hone := h (Hub.node "n") pausedEvents (by decide) "n" "GPU-test" "boot-one"
  exact absurd hone (by decide +kernel)

end CardScope.Events
