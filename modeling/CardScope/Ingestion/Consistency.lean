import CardScope.Ingestion.Steps
import CardScope.Library.Runs

/-! # Consistency of the tables

The rows of one node refer to each other: points to samples and cards, edges to points,
the live state to cards. Every transaction keeps these references, and they are what rules
out the error returns of ingest.
-/

namespace CardScope.Ingestion
open Library Model Hub

/-- The references between the rows of node `n`. -/
structure Consistent (st : Store) (n : String) : Prop where
  point_sample : ∀ p ∈ st.points, p.node = n →
    ∃ r ∈ st.samples, r.key = (n, p.boot, p.seq) ∧ r.atMs = p.atMs
  point_gpu : ∀ p ∈ st.points, p.node = n →
    ∃ r ∈ st.gpus, r.key = (n, p.uuid) ∧ r.firstSeen ≤ p.atMs ∧ p.atMs ≤ r.lastSeen
  edge_point : ∀ e ∈ st.edges, e.node = n → ∃ p ∈ st.points, p.key = e.key
  live_nodup : ∀ row ∈ st.nodes, row.id = n → (row.snapshot.gpus.map GPU.uuid).Nodup
  live_gpu : ∀ row ∈ st.nodes, row.id = n → ∀ g ∈ row.snapshot.gpus,
    ∃ r ∈ st.gpus, r.key = (n, g.uuid) ∧ r.firstSeen ≤ row.sampleAt

theorem consistent_freshStore (nodes : Table NodeRow NodeRow.id) (n : String) :
    Consistent (freshStore nodes) n := by
  constructor
  · exact fun p hp => absurd hp (Table.not_mem_empty p)
  · exact fun p hp => absurd hp (Table.not_mem_empty p)
  · exact fun e he => absurd he (Table.not_mem_empty e)
  · intro row hrow _
    obtain ⟨r, -, rfl⟩ := List.mem_map.mp hrow
    exact List.nodup_nil
  · intro row hrow _ g hg
    obtain ⟨r, -, rfl⟩ := List.mem_map.mp hrow
    exact absurd hg List.not_mem_nil

section Cards

variable {gpus : Table GPURow GPURow.key} {s : Snapshot} {g : GPU}

theorem mem_upsertGPU {r : GPURow} (hr : r ∈ gpus) : ∃ r' ∈ upsertGPU gpus s g,
    r'.key = r.key ∧ r'.firstSeen ≤ r.firstSeen ∧ r.lastSeen ≤ r'.lastSeen := by
  have hup := Table.find?_upsert gpus (gpuRow s g) (GPURow.widen s g) (fun _ => rfl) r.key
  rw [Table.find?_eq_some.mpr ⟨hr, rfl⟩] at hup
  split_ifs at hup with hk
  · obtain ⟨hmem, hkey⟩ := Table.find?_eq_some.mp hup
    exact ⟨_, hmem, hkey, min_le_left _ _, le_max_left _ _⟩
  · obtain ⟨hmem, hkey⟩ := Table.find?_eq_some.mp hup
    exact ⟨_, hmem, hkey, le_rfl, le_rfl⟩

theorem observed_mem_upsertGPU (gpus : Table GPURow GPURow.key) (s : Snapshot) (g : GPU) :
    ∃ r ∈ upsertGPU gpus s g,
      r.key = (s.nodeID, g.uuid) ∧ r.firstSeen ≤ s.atMs ∧ s.atMs ≤ r.lastSeen := by
  have hup := Table.find?_upsert gpus (gpuRow s g) (GPURow.widen s g) (fun _ => rfl)
    (gpuRow s g).key
  rw [if_pos rfl] at hup
  obtain ⟨hmem, hkey⟩ := Table.find?_eq_some.mp hup
  refine ⟨_, hmem, hkey, ?_⟩
  cases gpus.find? (gpuRow s g).key with
  | none => exact ⟨le_rfl, le_rfl⟩
  | some r => exact ⟨min_le_right _ _, le_max_right _ _⟩

end Cards

section Observe

variable {s : Snapshot} {tx tx' : Store} {g : GPU} {n : String}

/-- Observing a card writes edges under its own point and under points stored before. -/
theorem observe_edges (h : observe s tx g = .ok tx') {e : EdgeRow} (he : e ∈ tx'.edges) :
    e ∈ tx.edges ∨ ∃ a b : Point, (b = pointOf s g ∨ b ∈ tx.lanePoints s.nodeID g.uuid s.bootID) ∧
      (a = pointOf s g ∨ a ∈ tx.lanePoints s.nodeID g.uuid s.bootID) ∧
      e = ⟨s.nodeID, g.uuid, s.bootID, b.seq, contributions s.nodeID g.uuid a b⟩ := by
  obtain ⟨hkey, h⟩ := observe_ok h
  rw [h] at he
  have hlane : ∀ {o : Option PointRow} {p : Point}, o.map PointRow.data = some p →
      (∀ r, o = some r → r ∈ tx.laneRows s.nodeID g.uuid s.bootID) →
      p ∈ tx.lanePoints s.nodeID g.uuid s.bootID := by
    intro o p ho hr
    obtain ⟨r, rfl, rfl⟩ := Option.map_eq_some_iff.mp ho
    exact List.mem_map_of_mem (hr r rfl)
  have hbefore : ∀ p, tx.pointBefore s.nodeID g.uuid s.bootID s.atMs = some p →
      p ∈ tx.lanePoints s.nodeID g.uuid s.bootID := by
    intro p hp
    exact hlane hp (fun r hr => List.mem_of_mem_filter (latest_spec hr).1)
  have hafter : ∀ p, tx.pointAfter s.nodeID g.uuid s.bootID s.atMs = some p →
      p ∈ tx.lanePoints s.nodeID g.uuid s.bootID := by
    intro p hp
    apply hlane hp
    intro r hr
    exact List.mem_reverse.mp (List.mem_of_mem_filter (earliest_spec hr).1)
  cases hb : tx.pointBefore s.nodeID g.uuid s.bootID s.atMs with
  | none =>
    cases ha : tx.pointAfter s.nodeID g.uuid s.bootID s.atMs with
    | none => exact .inl (by simpa [linked, linkNeighbours, hb, ha] using he)
    | some c =>
      simp only [linked, linkNeighbours, hb, ha, replaceEdge_edges, Table.mem_put] at he
      rcases he with rfl | ⟨he, -⟩
      · exact .inr ⟨_, c, .inr (hafter c ha), .inl rfl, rfl⟩
      · exact .inl he
  | some a =>
    cases ha : tx.pointAfter s.nodeID g.uuid s.bootID s.atMs with
    | none =>
      simp only [linked, linkNeighbours, hb, ha, replaceEdge_edges, Table.mem_put] at he
      rcases he with rfl | ⟨he, -⟩
      · exact .inr ⟨a, _, .inl rfl, .inr (hbefore a hb), rfl⟩
      · exact .inl he
    | some c =>
      simp only [linked, linkNeighbours, hb, ha, replaceEdge_edges, Table.mem_put] at he
      rcases he with rfl | ⟨rfl | ⟨he, -⟩, -⟩
      · exact .inr ⟨_, c, .inr (hafter c ha), .inl rfl, rfl⟩
      · exact .inr ⟨a, _, .inl rfl, .inr (hbefore a hb), rfl⟩
      · exact .inl he

theorem Consistent.observe (hc : Consistent tx n) (hs : sampleRow s ∈ tx.samples)
    (h : observe s tx g = .ok tx') : Consistent tx' n := by
  obtain ⟨hkey, hpoints⟩ := observe_points h
  have hgpus := observe_gpus h
  have hsamples := observe_samples h
  have hnodes := observe_nodes h
  have hwide : ∀ r ∈ tx.gpus, ∃ r' ∈ tx'.gpus,
      r'.key = r.key ∧ r'.firstSeen ≤ r.firstSeen ∧ r.lastSeen ≤ r'.lastSeen := by
    rw [hgpus]
    exact fun r hr => mem_upsertGPU hr
  constructor
  · intro p hp hn
    rw [hsamples]
    rw [hpoints, Table.mem_insert] at hp
    rcases hp with rfl | hp
    · refine ⟨sampleRow s, hs, ?_, rfl⟩
      simp [SampleRow.key, sampleRow, pointRow, ← hn]
    · exact hc.point_sample p hp hn
  · intro p hp hn
    rw [hpoints, Table.mem_insert] at hp
    rcases hp with rfl | hp
    · rw [hgpus]
      obtain ⟨r, hr, hk, hrange⟩ := observed_mem_upsertGPU tx.gpus s g
      exact ⟨r, hr, by rw [hk, ← hn]; rfl, hrange⟩
    · obtain ⟨r, hr, hk, hlo, hhi⟩ := hc.point_gpu p hp hn
      obtain ⟨r', hr', hk', hlo', hhi'⟩ := hwide r hr
      exact ⟨r', hr', hk'.trans hk, hlo'.trans hlo, hhi.trans hhi'⟩
  · intro e he hn
    rw [hpoints]
    rcases observe_edges h he with he | ⟨a, b, hb, -, rfl⟩
    · obtain ⟨p, hp, hk⟩ := hc.edge_point e he hn
      exact ⟨p, Table.mem_insert.mpr (.inr hp), hk⟩
    · rcases hb with rfl | hb
      · exact ⟨pointRow s g, Table.mem_insert.mpr (.inl rfl), rfl⟩
      · obtain ⟨p, hp, h₁, h₂, h₃, h₄⟩ := Store.mem_lanePoints.mp hb
        refine ⟨p, Table.mem_insert.mpr (.inr hp), ?_⟩
        rw [PointRow.key, EdgeRow.key, h₁, h₂, h₃, ← p.seq_data, h₄]
  · rw [hnodes]
    exact hc.live_nodup
  · rw [hnodes]
    intro row hrow hn c hcard
    obtain ⟨r, hr, hk, hlo⟩ := hc.live_gpu row hrow hn c hcard
    obtain ⟨r', hr', hk', hlo', -⟩ := hwide r hr
    exact ⟨r', hr', hk'.trans hk, hlo'.trans hlo⟩

end Observe

section Call

variable {now : ℤ} {st tx st' : Store} {s full : Snapshot} {node : NodeRow} {n : String}

theorem Recorded.full_eq (h : Recorded now st s node full tx st') :
    full = { s with gpus := s.gpus ++ carriedOver (withSample st s h.fresh) node s } :=
  withCarried_ok h.carried

theorem Recorded.node_mem (h : Recorded now st s node full tx st') :
    node ∈ st.nodes ∧ node.id = s.nodeID :=
  Table.find?_eq_some.mp h.registered

theorem Recorded.sampleRow_full (h : Recorded now st s node full tx st') :
    sampleRow full = sampleRow s := by
  rw [h.full_eq]
  rfl

theorem Recorded.nodeID_full (h : Recorded now st s node full tx st') :
    full.nodeID = s.nodeID := by
  rw [h.full_eq]

theorem Recorded.atMs_full (h : Recorded now st s node full tx st') : full.atMs = s.atMs := by
  rw [h.full_eq]

theorem nodup_extend {cards old : List GPU} {p : GPU → Bool} {f : GPU → GPU}
    (hf : ∀ g, (f g).uuid = g.uuid) (hcards : (cards.map GPU.uuid).Nodup)
    (hold : (old.map GPU.uuid).Nodup) (hp : ∀ g, p g → ∀ c ∈ cards, c.uuid ≠ g.uuid) :
    ((cards ++ (old.filter p).map f).map GPU.uuid).Nodup := by
  rw [List.map_append, List.map_map, show GPU.uuid ∘ f = GPU.uuid from funext hf]
  refine List.nodup_append.mpr ⟨hcards, (List.filter_sublist.map GPU.uuid).nodup hold, ?_⟩
  intro u hu v hv
  obtain ⟨c, hc, rfl⟩ := List.mem_map.mp hu
  obtain ⟨g, hg, rfl⟩ := List.mem_map.mp hv
  exact hp g (List.mem_filter.mp hg).2 c hc

theorem nodup_carried {tx : Store} (hs : (s.gpus.map GPU.uuid).Nodup)
    (hlive : (node.snapshot.gpus.map GPU.uuid).Nodup) :
    ((s.gpus ++ carriedOver tx node s).map GPU.uuid).Nodup := by
  unfold carriedOver
  split_ifs with hok
  · rw [List.append_nil]
    exact hs
  · refine nodup_extend (fun _ => rfl) hs hlive (fun g hg c hc he => ?_)
    exact (of_decide_eq_true hg).1 ⟨c, hc, he⟩

theorem Recorded.full_nodup (h : Recorded now st s node full tx st')
    (hlive : (node.snapshot.gpus.map GPU.uuid).Nodup) : (full.gpus.map GPU.uuid).Nodup := by
  rw [h.full_eq]
  exact nodup_carried h.accepted.uuids_nodup hlive

theorem Recorded.consistent_start (h : Recorded now st s node full tx st')
    (hc : Consistent st n) : Consistent (withSample st s h.fresh) n := by
  constructor
  · intro p hp hn
    obtain ⟨r, hr, hk⟩ := hc.point_sample p hp hn
    exact ⟨r, List.mem_cons_of_mem _ hr, hk⟩
  · exact hc.point_gpu
  · exact hc.edge_point
  · exact hc.live_nodup
  · exact hc.live_gpu

theorem Recorded.consistent_tx (h : Recorded now st s node full tx st') (hc : Consistent st n) :
    Consistent tx n ∧ tx.nodes = st.nodes ∧
      ∀ g ∈ full.gpus, ∃ r ∈ tx.gpus, r.key = (s.nodeID, g.uuid) ∧ r.firstSeen ≤ s.atMs := by
  obtain ⟨hcons, -, hnodes, hseen⟩ := foldlM_invariant (Hub.observe full)
    (fun rest tx => Consistent tx n ∧ sampleRow full ∈ tx.samples ∧ tx.nodes = st.nodes ∧
      ∀ g ∈ full.gpus, g ∈ rest ∨
        ∃ r ∈ tx.gpus, r.key = (full.nodeID, g.uuid) ∧ r.firstSeen ≤ full.atMs)
    (by
      rintro g rest t t' ⟨hcons, hs, hnodes, hseen⟩ hstep
      refine ⟨hcons.observe hs hstep, ?_, ?_, fun c hcard => ?_⟩
      · rw [observe_samples hstep]
        exact hs
      · rw [observe_nodes hstep, hnodes]
      · rw [observe_gpus hstep]
        rcases hseen c hcard with hrest | ⟨r, hr, hk, hlo⟩
        · rcases List.mem_cons.mp hrest with rfl | hrest
          · obtain ⟨r, hr, hk, hlo, -⟩ := observed_mem_upsertGPU t.gpus full c
            exact .inr ⟨r, hr, hk, hlo⟩
          · exact .inl hrest
        · obtain ⟨r', hr', hk', hlo', -⟩ := mem_upsertGPU (s := full) (g := g) hr
          exact .inr ⟨r', hr', hk'.trans hk, hlo'.trans hlo⟩)
    ⟨h.consistent_start hc, by rw [h.sampleRow_full]; exact List.mem_cons_self, rfl,
      fun g hg => .inl hg⟩ h.observed
  rw [h.nodeID_full, h.atMs_full] at hseen
  exact ⟨hcons, hnodes, fun g hg => (hseen g hg).resolve_left List.not_mem_nil⟩

theorem Consistent.modify_node (hc : Consistent st n) {m : String} {f : NodeRow → NodeRow}
    {hf : ∀ r, (f r).id = r.id}
    (hlive : ∀ row ∈ st.nodes, row.id = m → m = n →
      ((f row).snapshot.gpus.map GPU.uuid).Nodup ∧ ∀ g ∈ (f row).snapshot.gpus,
        ∃ r ∈ st.gpus, r.key = (n, g.uuid) ∧ r.firstSeen ≤ (f row).sampleAt)
    (events : List EventRow) :
    Consistent { st with nodes := st.nodes.modify m f hf, events := events } n := by
  constructor
  · exact hc.point_sample
  · exact hc.point_gpu
  · exact hc.edge_point
  · intro row hrow hn
    change row ∈ st.nodes.modify m f hf at hrow
    rw [Table.mem_modify] at hrow
    obtain ⟨r, hr, rfl⟩ := hrow
    split_ifs at hn ⊢ with hm
    · exact (hlive r hr hm (hm.symm.trans ((hf r).symm.trans hn))).1
    · exact hc.live_nodup r hr hn
  · intro row hrow hn
    change row ∈ st.nodes.modify m f hf at hrow
    rw [Table.mem_modify] at hrow
    obtain ⟨r, hr, rfl⟩ := hrow
    split_ifs at hn ⊢ with hm
    · exact (hlive r hr hm (hm.symm.trans ((hf r).symm.trans hn))).2
    · exact hc.live_gpu r hr hn

theorem Recorded.consistent (h : Recorded now st s node full tx st') (hc : Consistent st n) :
    Consistent st' n := by
  obtain ⟨htx, hnodes, hseen⟩ := h.consistent_tx hc
  have hlive : Consistent (refreshLive full node tx) n := by
    unfold refreshLive
    split_ifs with hat
    · refine htx.modify_node (fun row hrow hm hn => ?_) _
      rw [h.nodeID_full] at hm hn
      obtain rfl : row = node := by
        rw [hnodes] at hrow
        exact Table.eq_of_key hrow h.node_mem.1 (hm.trans h.node_mem.2.symm)
      have hold := htx.live_gpu row hrow (hm.trans hn)
      have hnodup := hc.live_nodup row h.node_mem.1 (hm.trans hn)
      constructor
      · change ((full.gpus ++ (missingGPUs full row).map notDetected).map GPU.uuid).Nodup
        unfold missingGPUs
        split_ifs with hok
        · refine nodup_extend (fun _ => rfl) (h.full_nodup hnodup) hnodup (fun g hg c hcard he => ?_)
          exact of_decide_eq_true hg ⟨c, hcard, he⟩
        · simpa using h.full_nodup hnodup
      · intro g hg
        change g ∈ full.gpus ++ (missingGPUs full row).map notDetected at hg
        change ∃ r ∈ tx.gpus, r.key = (n, g.uuid) ∧ r.firstSeen ≤ full.atMs
        rcases List.mem_append.mp hg with hg | hg
        · rw [h.atMs_full, ← hn]
          exact hseen g hg
        · obtain ⟨c, hcard, rfl⟩ := List.mem_map.mp hg
          have hmem : c ∈ row.snapshot.gpus := by
            unfold missingGPUs at hcard
            split_ifs at hcard
            · exact (List.mem_filter.mp hcard).1
            · exact absurd hcard List.not_mem_nil
          obtain ⟨r, hr, hk, hlo⟩ := hold c hmem
          exact ⟨r, hr, hk, hlo.trans (le_of_lt hat)⟩
    · exact htx
  rw [h.result]
  unfold refreshReceived
  split_ifs
  · refine hlive.modify_node (fun row hrow hm hn => ?_) _
    have hid := hm.trans hn
    exact ⟨hlive.live_nodup row hrow hid, hlive.live_gpu row hrow hid⟩
  · exact hlive

theorem Consistent.ingested (hc : Consistent st n) (now : ℤ) (s : Snapshot) :
    Consistent (ingested now st s) n := by
  rcases ingested_cases now st s with h | ⟨node, full, tx, h⟩
  · rw [h]
    exact hc
  · exact h.consistent hc

/-- A report of a registered node that passes the limits is stored or found stored. -/
theorem ingest_succeeds (hc : Consistent st s.nodeID) (hreg : st.nodes.HasKey s.nodeID)
    (hv : validate now s = .ok ()) : ∃ st', ingest now st s = .ok st' := by
  obtain ⟨node, hmem, hid⟩ := hreg
  have hfind : st.nodes.find? s.nodeID = some node := Table.find?_eq_some.mpr ⟨hmem, hid⟩
  have haccepted := validate_ok hv
  by_cases hk : st.samples.HasKey (sampleRow s).key
  · exact ⟨st, ingest_of_known hv hk⟩
  · obtain ⟨carried, hcarried⟩ : ∃ carried,
        carriedGPUs (withSample st s hk) s node.snapshot.gpus = .ok carried := by
      apply carriedGPUs_succeeds
      intro g hg
      obtain ⟨r, hr, hkey, -⟩ := hc.live_gpu node hmem hid g hg
      exact ⟨r, hr, hkey⟩
    obtain ⟨full, hfull⟩ : ∃ full, withCarried (withSample st s hk) node s = .ok full := by
      unfold withCarried
      split_ifs
      · exact ⟨_, by rw [hcarried]; rfl⟩
      · exact ⟨s, rfl⟩
    have heq := withCarried_ok hfull
    have hnodup : (full.gpus.map GPU.uuid).Nodup := by
      rw [heq]
      exact nodup_carried haccepted.uuids_nodup (hc.live_nodup node hmem hid)
    obtain ⟨tx, htx, -⟩ := foldlM_succeeds (observe full)
      (fun rest tx => (rest.map GPU.uuid).Nodup ∧ ∀ g ∈ rest, ¬ tx.points.HasKey (pointRow full g).key)
      (by
        rintro g rest t ⟨hrest, hfresh⟩
        obtain ⟨t', ht⟩ := observe_succeeds (hfresh g (by simp))
        rw [List.map_cons, List.nodup_cons] at hrest
        refine ⟨t', ht, hrest.2, fun c hcard hkey => ?_⟩
        obtain ⟨_, hpoints⟩ := observe_points ht
        rw [hpoints] at hkey
        obtain ⟨p, hp, he⟩ := hkey
        rcases List.mem_cons.mp hp with rfl | hp
        · have hu : g.uuid = c.uuid := by simpa [PointRow.key, pointRow] using he
          exact hrest.1 (hu ▸ List.mem_map_of_mem hcard)
        · exact hfresh c (List.mem_cons_of_mem _ hcard) ⟨p, hp, he⟩)
      full.gpus (withSample st s hk) ⟨hnodup, by
        -- a point of this sample would refer to a sample row, but the sample is new
        rintro g - ⟨p, hp, he⟩
        have hfields : p.node = s.nodeID ∧ p.boot = s.bootID ∧ p.seq = s.seq := by
          rw [heq] at he
          simp only [PointRow.key, pointRow, Prod.mk.injEq] at he
          exact ⟨he.1, he.2.2.1, he.2.2.2⟩
        obtain ⟨r, hr, hkey, -⟩ := hc.point_sample p hp hfields.1
        refine hk ⟨r, hr, ?_⟩
        rw [hkey, hfields.2.1, hfields.2.2]
        rfl⟩
    exact ⟨refreshReceived now full node (refreshLive full node tx), by
      rw [ingest_of_fresh hv hk hfind, hfull, Except.bind, htx, Except.bind]⟩

/-- The call brings a new sample of a registered node. -/
def Storable (now : ℤ) (st : Store) (s : Snapshot) : Prop := validate now s = .ok () ∧
  ¬ st.samples.HasKey (sampleRow s).key ∧ st.nodes.HasKey s.nodeID

instance (now : ℤ) (st : Store) (s : Snapshot) : Decidable (Storable now st s) :=
  inferInstanceAs (Decidable (validate now s = .ok () ∧
    ¬ st.samples.HasKey (sampleRow s).key ∧ st.nodes.HasKey s.nodeID))

theorem recorded_of_storable (hc : Consistent st s.nodeID) (h : Storable now st s) :
    ∃ node full tx, Recorded now st s node full tx (ingested now st s) := by
  obtain ⟨hv, hk, hreg⟩ := h
  obtain ⟨st', hok⟩ := ingest_succeeds hc hreg hv
  rcases ingest_cases now st s with ⟨e, he⟩ | ⟨hknown, -⟩ | ⟨node, full, tx, st'', hok', hrec⟩
  · rw [hok] at he
    cases he
  · exact absurd hknown hk
  · refine ⟨node, full, tx, ?_⟩
    unfold ingested
    rw [hok']
    exact hrec

theorem ingested_of_not_storable (h : ¬ Storable now st s) : ingested now st s = st := by
  rcases ingested_cases now st s with heq | ⟨node, full, tx, hrec⟩
  · exact heq
  · unfold ingested
    cases hv : validate now s with
    | error message =>
      unfold ingest
      rw [hv]
    | ok _ => exact absurd ⟨hv, hrec.fresh, ⟨node, hrec.node_mem⟩⟩ h

end Call

theorem Consistent.prune {st : Store} {n : String} (hc : Consistent st n) (now : ℤ) :
    Consistent (prune now st) n := by
  constructor
  · intro p hp hn
    obtain ⟨hp, hat⟩ := Table.mem_keep.mp hp
    obtain ⟨r, hr, hk, he⟩ := hc.point_sample p hp hn
    exact ⟨r, Table.mem_keep.mpr ⟨hr, by rw [he]; exact hat⟩, hk, he⟩
  · intro p hp hn
    exact hc.point_gpu p (Table.mem_keep.mp hp).1 hn
  · intro e he hn
    obtain ⟨he, hkept⟩ := Table.mem_keep.mp he
    obtain ⟨p, hp, hk⟩ := List.any_eq_true.mp hkept
    obtain ⟨hkey, hat⟩ := of_decide_eq_true hk
    exact ⟨p, Table.mem_keep.mpr ⟨hp, by simpa using hat⟩, hkey⟩
  · exact hc.live_nodup
  · exact hc.live_gpu

theorem consistent_run (nodes : Table NodeRow NodeRow.id) (events : List Event) (n : String) :
    Consistent (run (freshStore nodes) events) n := by
  refine foldl_invariant step (fun _ st => Consistent st n) (fun e rest st hc => ?_) events _
    (consistent_freshStore nodes n)
  cases e with
  | ingest now s => exact hc.ingested now s
  | prune now => exact hc.prune now

/-- After every sequence of uploads and cleanups the rows of every node refer to each other, and
no accepted report of a registered node meets an error: it is stored or found stored. -/
theorem ingest_never_fails (nodes : Table NodeRow NodeRow.id) (events : List Event) :
    (∀ n, Consistent (run (freshStore nodes) events) n) ∧
    ∀ now s, validate now s = .ok () →
      (run (freshStore nodes) events).nodes.HasKey s.nodeID →
        ∃ st', ingest now (run (freshStore nodes) events) s = .ok st' :=
  ⟨consistent_run nodes events, fun _ s hv hreg =>
    ingest_succeeds (consistent_run nodes events s.nodeID) hreg hv⟩

/-- A failed enumeration right after a cleanup. -/
theorem ingest_never_fails_after_cleanup : ∃ st', ingest 1700000071000
    (run (freshStore (Hub.node "n")) [.ingest 1700000071000 (sample "n" 1 1700000041000),
      .prune 1700000071000]) (failedSample "n" 2 1700000046000) = .ok st' :=
  (ingest_never_fails (Hub.node "n") [.ingest 1700000071000 (sample "n" 1 1700000041000),
    .prune 1700000071000]).2 1700000071000 (failedSample "n" 2 1700000046000)
    (by decide +kernel) (by decide +kernel)

end CardScope.Ingestion
