import CardScope.Ingestion.Points

/-! # What a recorded report changes

The exact effect of one new report on the points of a card, on its first sighting and on the
live state of the node. The cards of a failed report are those it lists and those it carries
over.
-/

namespace CardScope.Ingestion
open Library Model Hub

variable {now : ℤ} {st tx tx' st' : Store} {s full : Snapshot} {node : NodeRow} {g : GPU}

theorem lists_iff (s : Snapshot) (u : String) : s.Lists u ↔ ∃ g ∈ s.gpus, g.uuid = u := Iff.rfl

def SeenBy (st : Store) (n u : String) (time : ℤ) : Prop :=
  ∃ row ∈ st.gpus.find? (n, u), row.firstSeen ≤ time

theorem Recorded.gpus_full (h : Recorded now st s node full tx st') :
    full.gpus = s.gpus ++ carriedOver (withSample st s h.fresh) node s :=
  congrArg Snapshot.gpus h.full_eq

theorem Recorded.full_lists (h : Recorded now st s node full tx st') (u : String) :
    full.Lists u ↔ s.Lists u ∨
      s.gpuStatus ≠ "ok" ∧ node.snapshot.Lists u ∧ SeenBy st s.nodeID u s.atMs := by
  have hlist : full.Lists u ↔
      s.Lists u ∨ ∃ g ∈ carriedOver (withSample st s h.fresh) node s, g.uuid = u := by
    simp only [lists_iff, h.gpus_full, List.mem_append, or_and_right, exists_or]
  rw [hlist]
  by_cases hs : s.Lists u
  · exact iff_of_true (.inl hs) (.inl hs)
  · apply or_congr_right
    unfold carriedOver
    split_ifs with hok
    · exact iff_of_false (by simp) (fun hgap => hgap.1 hok)
    · constructor
      · rintro ⟨g, hg, rfl⟩
        obtain ⟨c, hc, rfl⟩ := List.mem_map.mp hg
        obtain ⟨hc, hcarries⟩ := List.mem_filter.mp hc
        exact ⟨hok, ⟨c, hc, rfl⟩, (of_decide_eq_true hcarries).2⟩
      · rintro ⟨-, ⟨c, hc, rfl⟩, hseen⟩
        exact ⟨queryFailed s c, List.mem_map_of_mem
          (List.mem_filter.mpr ⟨hc, decide_eq_true ⟨hs, hseen⟩⟩), rfl⟩

/-- A card of the extended report is one the report lists, or was carried over by a report that
does not list it. -/
theorem Recorded.mem_full (h : Recorded now st s node full tx st') (hg : g ∈ full.gpus) :
    g ∈ s.gpus ∨ ¬ s.Lists g.uuid ∧ ∃ c, g = queryFailed s c := by
  rw [h.gpus_full, List.mem_append] at hg
  apply hg.imp_right
  intro hg
  unfold carriedOver at hg
  split_ifs at hg
  · exact absurd hg List.not_mem_nil
  · obtain ⟨c, hc, rfl⟩ := List.mem_map.mp hg
    exact ⟨(of_decide_eq_true (List.mem_filter.mp hc).2).1, c, rfl⟩

theorem mem_lanePoints_observed {cards : List GPU} (h : cards.foldlM (observe s) tx = .ok tx')
    (n u b : String) (p : Point) : p ∈ tx'.lanePoints n u b ↔
      (s.nodeID = n ∧ s.bootID = b ∧ ∃ g ∈ cards, g.uuid = u ∧ pointOf s g = p) ∨
        p ∈ tx.lanePoints n u b := by
  induction cards generalizing tx with
  | nil =>
    cases h
    simp
  | cons g cards ih =>
    rw [List.foldlM_cons] at h
    cases ho : observe s tx g with
    | error e => simp [ho, bind, Except.bind] at h
    | ok t =>
      simp only [ho, bind, Except.bind] at h
      have hlane : p ∈ t.lanePoints n u b ↔
          (s.nodeID = n ∧ s.bootID = b ∧ g.uuid = u ∧ pointOf s g = p) ∨
            p ∈ tx.lanePoints n u b := by
        rw [observe_lanePoints ho]
        split_ifs with hl
        · simp only [List.mem_cons, eq_comm (a := p), hl.1, hl.2.1, hl.2.2, true_and]
        · exact (or_iff_right (fun hc => hl ⟨hc.1, hc.2.2.1, hc.2.1⟩)).symm
      rw [ih h, hlane, ← or_assoc, List.exists_mem_cons_iff]
      refine or_congr_left ⟨?_, ?_⟩
      · rintro (⟨hn, hb, hc⟩ | ⟨hn, hb, hc⟩)
        · exact ⟨hn, hb, .inr hc⟩
        · exact ⟨hn, hb, .inl hc⟩
      · rintro ⟨hn, hb, hc | hc⟩
        · exact .inr ⟨hn, hb, hc⟩
        · exact .inl ⟨hn, hb, hc⟩

theorem Recorded.mem_lanePoints (h : Recorded now st s node full tx st') (n u b : String)
    (p : Point) : p ∈ st'.lanePoints n u b ↔
      (s.nodeID = n ∧ s.bootID = b ∧ ∃ g ∈ full.gpus, g.uuid = u ∧ pointOf s g = p) ∨
        p ∈ st.lanePoints n u b := by
  have htx : st'.lanePoints n u b = tx.lanePoints n u b := by
    unfold Store.lanePoints
    rw [h.measurements.1]
  rw [htx, mem_lanePoints_observed h.observed, h.nodeID_full, h.bootID_full]
  simp only [h.pointOf_full]
  exact Iff.rfl

def sighted (first : Option ℤ) (time : ℤ) : Option ℤ :=
  some (first.elim time (fun t => min t time))

theorem sighted_sighted (first : Option ℤ) (time : ℤ) :
    sighted (sighted first time) time = sighted first time := by
  cases first <;> simp [sighted]

def firstSighting (st : Store) (n u : String) : Option ℤ :=
  (st.gpus.find? (n, u)).map GPURow.firstSeen

theorem seenBy_iff (st : Store) (n u : String) (time : ℤ) :
    SeenBy st n u time ↔ ∃ t ∈ firstSighting st n u, t ≤ time := by
  unfold SeenBy firstSighting
  cases st.gpus.find? (n, u) <;> simp

theorem firstSighting_observe (h : observe s tx g = .ok tx') (u : String) :
    firstSighting tx' s.nodeID u = if g.uuid = u then sighted (firstSighting tx s.nodeID u) s.atMs
      else firstSighting tx s.nodeID u := by
  have hup := Table.find?_upsert tx.gpus (gpuRow s g) (GPURow.widen s g) (fun _ => rfl) (s.nodeID, u)
  unfold firstSighting
  rw [observe_gpus h, upsertGPU, hup]
  by_cases hu : g.uuid = u
  · rw [if_pos hu, if_pos (by rw [← hu]; rfl)]
    cases tx.gpus.find? (s.nodeID, u) <;> rfl
  · rw [if_neg hu, if_neg (fun hk : (gpuRow s g).key = _ => hu (Prod.mk.inj hk).2)]

theorem firstSighting_observed {cards : List GPU} (h : cards.foldlM (observe s) tx = .ok tx')
    (u : String) : firstSighting tx' s.nodeID u =
      if ∃ g ∈ cards, g.uuid = u then sighted (firstSighting tx s.nodeID u) s.atMs
      else firstSighting tx s.nodeID u := by
  induction cards generalizing tx with
  | nil =>
    cases h
    simp
  | cons g cards ih =>
    rw [List.foldlM_cons] at h
    cases ho : observe s tx g with
    | error e => simp [ho, bind, Except.bind] at h
    | ok t =>
      simp only [ho, bind, Except.bind] at h
      rw [ih h, firstSighting_observe ho]
      by_cases hg : g.uuid = u
      · simp [hg, sighted_sighted]
      · simp [hg]

theorem Recorded.firstSighting (h : Recorded now st s node full tx st') (u : String) :
    Ingestion.firstSighting st' s.nodeID u =
      if full.Lists u then sighted (Ingestion.firstSighting st s.nodeID u) s.atMs
      else Ingestion.firstSighting st s.nodeID u := by
  have hobserved := firstSighting_observed h.observed u
  rw [h.nodeID_full, h.atMs_full] at hobserved
  have htx : Ingestion.firstSighting st' s.nodeID u = Ingestion.firstSighting tx s.nodeID u := by
    unfold Ingestion.firstSighting
    rw [h.measurements.2.2.2.2]
  rw [htx, hobserved]
  rfl

theorem lists_replaced (full : Snapshot) (node : NodeRow) (u : String) :
    Snapshot.Lists { full with gpus := full.gpus ++ (missingGPUs full node).map notDetected } u ↔
      full.Lists u ∨ full.gpuStatus = "ok" ∧ node.snapshot.Lists u := by
  have hmissing : (∃ g ∈ (missingGPUs full node).map notDetected, g.uuid = u) ↔
      full.gpuStatus = "ok" ∧ node.snapshot.Lists u ∧ ¬ full.Lists u := by
    unfold missingGPUs
    split_ifs with hok
    · constructor
      · rintro ⟨g, hg, rfl⟩
        obtain ⟨c, hc, rfl⟩ := List.mem_map.mp hg
        obtain ⟨hc, hl⟩ := List.mem_filter.mp hc
        exact ⟨hok, ⟨c, hc, rfl⟩, of_decide_eq_true hl⟩
      · rintro ⟨-, ⟨c, hc, rfl⟩, hl⟩
        exact ⟨notDetected c, List.mem_map_of_mem (List.mem_filter.mpr ⟨hc, decide_eq_true hl⟩), rfl⟩
    · exact iff_of_false (by simp) (fun hm => hok hm.1)
  rw [lists_iff]
  simp only [List.mem_append, or_and_right, exists_or]
  rw [hmissing, ← lists_iff]
  tauto

theorem Recorded.nodes_tx (h : Recorded now st s node full tx st') : tx.nodes = st.nodes := by
  have hstart : (withSample st s h.fresh).nodes = st.nodes := rfl
  exact foldlM_invariant (Hub.observe full) (fun _ t => t.nodes = st.nodes)
    (fun _ _ _ _ ht hstep => (observe_nodes hstep).trans ht) hstart h.observed

def replacement (full : Snapshot) (node : NodeRow) : Snapshot :=
  { full with gpus := full.gpus ++ (missingGPUs full node).map notDetected }

/-- The report refreshes the time of reception of its node. -/
def Refreshes (now : ℤ) (s : Snapshot) (node : NodeRow) : Prop :=
  s.backfill = false ∧ node.sampleAt ≤ s.atMs ∧ now - s.atMs ≤ s.interval * 2000

instance (now : ℤ) (s : Snapshot) (node : NodeRow) : Decidable (Refreshes now s node) :=
  inferInstanceAs (Decidable (s.backfill = false ∧ node.sampleAt ≤ s.atMs ∧
    now - s.atMs ≤ s.interval * 2000))

def refreshedRow (now : ℤ) (full : Snapshot) (node : NodeRow) : NodeRow :=
  let live := if full.atMs > node.sampleAt then node.setLive (replacement full node) else node
  if Refreshes now full node then live.setReceived now else live

theorem refreshedRow_sampleAt (now : ℤ) (full : Snapshot) (node : NodeRow) :
    (refreshedRow now full node).sampleAt = max node.sampleAt full.atMs := by
  unfold refreshedRow
  by_cases hnewer : full.atMs > node.sampleAt
  · rw [if_pos hnewer, max_eq_right hnewer.le]
    split_ifs <;> rfl
  · rw [if_neg hnewer, max_eq_left (not_lt.mp hnewer)]
    split_ifs <;> rfl

theorem refreshedRow_snapshot (now : ℤ) (full : Snapshot) (node : NodeRow) :
    (refreshedRow now full node).snapshot =
      if full.atMs > node.sampleAt then replacement full node else node.snapshot := by
  unfold refreshedRow
  by_cases hnewer : full.atMs > node.sampleAt
  · rw [if_pos hnewer, if_pos hnewer]
    split_ifs <;> rfl
  · rw [if_neg hnewer, if_neg hnewer]
    split_ifs <;> rfl

theorem refreshedRow_receivedAt (now : ℤ) (full : Snapshot) (node : NodeRow) :
    (refreshedRow now full node).receivedAt =
      if Refreshes now full node then now else node.receivedAt := by
  unfold refreshedRow
  by_cases hnewer : full.atMs > node.sampleAt
  · rw [if_pos hnewer]
    split_ifs <;> rfl
  · rw [if_neg hnewer]
    split_ifs <;> rfl

theorem refreshReceived_eq (now : ℤ) (full : Snapshot) (node : NodeRow) (tx : Store) :
    refreshReceived now full node tx = if Refreshes now full node then
      { tx with nodes := tx.nodes.modify full.nodeID (NodeRow.setReceived now) (fun _ => rfl) }
    else tx := by
  have hcond : (!full.backfill && full.atMs ≥ node.sampleAt &&
      now - full.atMs ≤ full.interval * 2000) = decide (Refreshes now full node) := by
    rw [Bool.eq_iff_iff]
    simp [Refreshes, and_assoc]
  unfold refreshReceived
  simp only [hcond, decide_eq_true_eq]

theorem Recorded.nodes_find? (h : Recorded now st s node full tx st') (m : String) :
    st'.nodes.find? m =
      if s.nodeID = m then some (refreshedRow now full node) else st.nodes.find? m := by
  have hlive : (refreshLive full node tx).nodes.find? m = if s.nodeID = m then
      some (if full.atMs > node.sampleAt then node.setLive (replacement full node) else node)
      else st.nodes.find? m := by
    unfold refreshLive
    by_cases hnewer : full.atMs > node.sampleAt
    · have hmod := Table.find?_modify tx.nodes full.nodeID
        (NodeRow.setLive (replacement full node)) (fun _ => rfl) m
      rw [if_pos hnewer, if_pos hnewer]
      apply hmod.trans
      rw [h.nodes_tx, h.nodeID_full]
      by_cases hm : s.nodeID = m
      · rw [if_pos hm, ← hm, h.registered, Option.map_some, if_pos rfl]
      · simp [hm]
    · rw [if_neg hnewer, if_neg hnewer, h.nodes_tx]
      by_cases hm : s.nodeID = m
      · rw [if_pos hm, ← hm, h.registered]
      · rw [if_neg hm]
  rw [h.result, refreshReceived_eq]
  unfold refreshedRow
  by_cases hr : Refreshes now full node
  · have hmod := Table.find?_modify (refreshLive full node tx).nodes full.nodeID
      (NodeRow.setReceived now) (fun _ => rfl) m
    rw [if_pos hr]
    apply hmod.trans
    rw [hlive, h.nodeID_full]
    by_cases hm : s.nodeID = m <;> simp [hm, hr]
  · rw [if_neg hr, hlive]
    simp only [hr, if_false]

theorem Recorded.row (h : Recorded now st s node full tx st') :
    st'.nodes.find? s.nodeID = some (refreshedRow now full node) := by
  rw [h.nodes_find?, if_pos rfl]

/-- The row of the node after a call: its time never runs back, and a newer report replaces the
live state. -/
theorem Recorded.live (h : Recorded now st s node full tx st') :
    ∃ row, st'.nodes.find? s.nodeID = some row ∧ row.sampleAt = max node.sampleAt s.atMs ∧
      ∀ u, row.snapshot.Lists u ↔ if s.atMs > node.sampleAt
        then full.Lists u ∨ s.gpuStatus = "ok" ∧ node.snapshot.Lists u
        else node.snapshot.Lists u := by
  refine ⟨_, h.row, ?_, fun u => ?_⟩
  · rw [refreshedRow_sampleAt, h.atMs_full]
  · rw [refreshedRow_snapshot, h.atMs_full]
    split_ifs
    · have hstatus : full.gpuStatus = s.gpuStatus := by rw [h.full_eq]
      rw [← hstatus]
      exact lists_replaced full node u
    · exact Iff.rfl

/-- The events after a call: those of the cards, and the cards that are newly missing. -/
theorem Recorded.events_eq (h : Recorded now st s node full tx st') : st'.events =
    (if s.atMs > node.sampleAt then missingEvents full (missingGPUs full node) else []) ++
      tx.events := by
  have hreceived : (refreshReceived now full node (refreshLive full node tx)).events =
      (refreshLive full node tx).events := by
    unfold refreshReceived
    split_ifs <;> rfl
  rw [h.result, hreceived, ← h.atMs_full]
  unfold refreshLive
  by_cases hnewer : full.atMs > node.sampleAt
  · rw [if_pos hnewer, if_pos hnewer]
  · rw [if_neg hnewer, if_neg hnewer]
    rfl

end CardScope.Ingestion
