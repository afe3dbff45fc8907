import CardScope.Hub.Prune

/-! # What one call of ingest does

Inversion lemmas for the transaction and for the observation of one card, with the
effect on every table, and the induction rule over the cards of a report.
-/

namespace CardScope.Ingestion
open Library Model Hub

def withSample (st : Store) (s : Snapshot) (h : ¬ st.samples.HasKey (sampleRow s).key) : Store :=
  { st with samples := st.samples.insert (sampleRow s) h }

/-- A new sample was stored: `full` is the report with its carried cards, `tx` the store
after its last card. -/
structure Recorded (now : ℤ) (st : Store) (s : Snapshot) (node : NodeRow) (full : Snapshot)
    (tx st' : Store) : Prop where
  accepted : Accepted now s
  fresh : ¬ st.samples.HasKey (sampleRow s).key
  registered : st.nodes.find? s.nodeID = some node
  carried : withCarried (withSample st s fresh) node s = .ok full
  observed : full.gpus.foldlM (observe full) (withSample st s fresh) = .ok tx
  result : st' = refreshReceived now full node (refreshLive full node tx)

theorem ingest_of_known {now : ℤ} {st : Store} {s : Snapshot} (hv : validate now s = .ok ())
    (hk : st.samples.HasKey (sampleRow s).key) : ingest now st s = .ok st := by
  unfold ingest
  rw [hv]
  exact dif_pos hk

theorem ingest_of_fresh {now : ℤ} {st : Store} {s : Snapshot} {node : NodeRow}
    (hv : validate now s = .ok ()) (hk : ¬ st.samples.HasKey (sampleRow s).key)
    (hn : st.nodes.find? s.nodeID = some node) :
    ingest now st s = (withCarried (withSample st s hk) node s).bind (fun full =>
      (full.gpus.foldlM (observe full) (withSample st s hk)).bind (fun tx =>
        .ok (refreshReceived now full node (refreshLive full node tx)))) := by
  unfold ingest
  rw [hv]
  simp only [hk, dite_false, hn]
  rfl

/-- A call fails, finds its sample stored already, or records it. -/
theorem ingest_cases (now : ℤ) (st : Store) (s : Snapshot) :
    (∃ e, ingest now st s = .error e) ∨
    (st.samples.HasKey (sampleRow s).key ∧ ingest now st s = .ok st) ∨
    ∃ node full tx st', ingest now st s = .ok st' ∧ Recorded now st s node full tx st' := by
  cases hv : validate now s with
  | error e => exact .inl ⟨_, by unfold ingest; rw [hv]⟩
  | ok _ =>
    by_cases hk : st.samples.HasKey (sampleRow s).key
    · exact .inr (.inl ⟨hk, ingest_of_known hv hk⟩)
    · cases hn : st.nodes.find? s.nodeID with
      | none =>
        refine .inl ⟨.noRows, ?_⟩
        unfold ingest
        rw [hv]
        simp only [hk, dite_false, hn]
      | some node =>
        rw [ingest_of_fresh hv hk hn]
        cases hc : withCarried (withSample st s hk) node s with
        | error e => exact .inl ⟨e, rfl⟩
        | ok full =>
          cases ho : full.gpus.foldlM (observe full) (withSample st s hk) with
          | error e => exact .inl ⟨e, by simp only [Except.bind, ho]⟩
          | ok tx =>
            refine .inr (.inr ⟨node, full, tx, _, ?_, validate_ok hv, hk, hn, hc, ho, rfl⟩)
            simp only [Except.bind, ho]

theorem ingested_cases (now : ℤ) (st : Store) (s : Snapshot) :
    ingested now st s = st ∨
      ∃ node full tx, Recorded now st s node full tx (ingested now st s) := by
  unfold ingested
  rcases ingest_cases now st s with ⟨e, he⟩ | ⟨-, hok⟩ | ⟨node, full, tx, st', hok, hrec⟩
  · simp [he]
  · simp [hok]
  · rw [hok]
    exact .inr ⟨node, full, tx, hrec⟩

section Carried

/-- A failed enumeration carries the card over. -/
def Carries (tx : Store) (s : Snapshot) (g : GPU) : Prop :=
  ¬ s.Lists g.uuid ∧ ∃ row ∈ tx.gpus.find? (s.nodeID, g.uuid), row.firstSeen ≤ s.atMs

instance (tx : Store) (s : Snapshot) (g : GPU) : Decidable (Carries tx s g) :=
  inferInstanceAs (Decidable (¬ s.Lists g.uuid ∧
    ∃ row ∈ tx.gpus.find? (s.nodeID, g.uuid), row.firstSeen ≤ s.atMs))

theorem carriedGPUs_ok {tx : Store} {s : Snapshot} {old carried : List GPU}
    (h : carriedGPUs tx s old = .ok carried) :
    carried = (old.filter (fun g => Carries tx s g)).map (queryFailed s) := by
  induction old generalizing carried with
  | nil =>
    cases h
    rfl
  | cons g rest ih =>
    rw [carriedGPUs] at h
    by_cases hl : s.Lists g.uuid
    · rw [if_pos hl] at h
      rw [List.filter_cons_of_neg (by simp [Carries, hl])]
      exact ih h
    · rw [if_neg hl] at h
      cases hf : tx.gpus.find? (s.nodeID, g.uuid) with
      | none => simp [hf] at h
      | some row =>
        simp only [hf] at h
        cases hr : carriedGPUs tx s rest with
        | error e => simp [hr, bind, Except.bind] at h
        | ok later =>
          simp only [hr, bind, Except.bind, pure, Except.pure] at h
          split_ifs at h with hfirst
          · cases h
            rw [List.filter_cons_of_neg (by simp [Carries, hf, hfirst])]
            exact ih hr
          · cases h
            rw [List.filter_cons_of_pos (by simp [Carries, hl, hf, not_lt.mp hfirst]), List.map_cons,
              ← ih hr]

theorem carriedGPUs_succeeds {tx : Store} {s : Snapshot} {old : List GPU}
    (h : ∀ g ∈ old, tx.gpus.HasKey (s.nodeID, g.uuid)) :
    ∃ carried, carriedGPUs tx s old = .ok carried := by
  induction old with
  | nil => exact ⟨[], rfl⟩
  | cons g rest ih =>
    obtain ⟨later, hr⟩ := ih (fun g' hg' => h g' (List.mem_cons_of_mem _ hg'))
    rw [carriedGPUs]
    split_ifs with hl
    · exact ⟨later, hr⟩
    · cases hf : tx.gpus.find? (s.nodeID, g.uuid) with
      | none => exact absurd (h g List.mem_cons_self) (Table.find?_eq_none_iff.mp hf)
      | some row =>
        by_cases hfirst : row.firstSeen > s.atMs <;>
          simp [hr, hfirst, bind, Except.bind, pure, Except.pure]

def carriedOver (tx : Store) (node : NodeRow) (s : Snapshot) : List GPU :=
  if s.gpuStatus = "ok" then []
  else (node.snapshot.gpus.filter (fun g => Carries tx s g)).map (queryFailed s)

/-- The report with its carried cards: nothing but the card list grows. -/
theorem withCarried_ok {tx : Store} {node : NodeRow} {s full : Snapshot}
    (h : withCarried tx node s = .ok full) :
    full = { s with gpus := s.gpus ++ carriedOver tx node s } := by
  unfold withCarried at h
  unfold carriedOver
  by_cases hs : s.gpuStatus = "ok"
  · simp only [hs, ne_eq, not_true_eq_false, if_false, pure, Except.pure, Except.ok.injEq] at h
    rw [if_pos hs, List.append_nil, h]
  · rw [if_pos hs] at h
    cases hc : carriedGPUs tx s node.snapshot.gpus with
    | error e => simp [hc, bind, Except.bind] at h
    | ok carried =>
      simp only [hc, bind, Except.bind, pure, Except.pure, Except.ok.injEq] at h
      rw [if_neg hs, ← carriedGPUs_ok hc, h]

end Carried

section Observe

variable {s : Snapshot} {tx tx' : Store} {g : GPU}

def linked (s : Snapshot) (tx : Store) (g : GPU) (h : ¬ tx.points.HasKey (pointRow s g).key) :
    Store :=
  linkNeighbours { tx with points := tx.points.insert (pointRow s g) h } s.nodeID g.uuid s.bootID
    (pointOf s g) (tx.pointBefore s.nodeID g.uuid s.bootID s.atMs)
    (tx.pointAfter s.nodeID g.uuid s.bootID s.atMs)

/-- A card that could be observed had no point of this sample; these tables are written. -/
theorem observe_ok (h : observe s tx g = .ok tx') : ∃ hkey : ¬ tx.points.HasKey (pointRow s g).key,
    tx' = { tx with
      points := tx.points.insert (pointRow s g) hkey
      edges := (linked s tx g hkey).edges
      rollups := (linked s tx g hkey).rollups
      events := tx'.events
      gpus := upsertGPU tx.gpus s g } := by
  unfold observe at h
  split_ifs at h with hkey
  refine ⟨hkey, ?_⟩
  cases h
  unfold linked
  cases tx.pointBefore s.nodeID g.uuid s.bootID s.atMs <;>
    cases tx.pointAfter s.nodeID g.uuid s.bootID s.atMs <;> rfl

theorem observe_succeeds (hkey : ¬ tx.points.HasKey (pointRow s g).key) :
    ∃ tx', observe s tx g = .ok tx' := by
  unfold observe
  rw [dif_neg hkey]
  exact ⟨_, rfl⟩

theorem observe_nodes (h : observe s tx g = .ok tx') : tx'.nodes = tx.nodes := by
  obtain ⟨_, h⟩ := observe_ok h
  rw [h]

theorem observe_samples (h : observe s tx g = .ok tx') : tx'.samples = tx.samples := by
  obtain ⟨_, h⟩ := observe_ok h
  rw [h]

theorem observe_gpus (h : observe s tx g = .ok tx') : tx'.gpus = upsertGPU tx.gpus s g := by
  obtain ⟨_, h⟩ := observe_ok h
  rw [h]

theorem observe_points (h : observe s tx g = .ok tx') :
    ∃ hkey, tx'.points = tx.points.insert (pointRow s g) hkey := by
  obtain ⟨hkey, h⟩ := observe_ok h
  exact ⟨hkey, by rw [h]⟩

theorem observe_events (h : observe s tx g = .ok tx') : tx'.events =
    failureEvents s g (tx.pointBefore s.nodeID g.uuid s.bootID s.atMs)
      (startedEvents s g (tx.pointBefore s.nodeID g.uuid s.bootID s.atMs)
        (tx.pointAfter s.nodeID g.uuid s.bootID s.atMs) tx.events) := by
  unfold observe at h
  split_ifs at h with hkey
  cases h
  cases tx.pointBefore s.nodeID g.uuid s.bootID s.atMs <;>
    cases tx.pointAfter s.nodeID g.uuid s.bootID s.atMs <;> rfl

theorem observe_lanePoints (h : observe s tx g = .ok tx') (n u b : String) :
    tx'.lanePoints n u b = if s.nodeID = n ∧ g.uuid = u ∧ s.bootID = b
      then pointOf s g :: tx.lanePoints n u b else tx.lanePoints n u b := by
  obtain ⟨hkey, h⟩ := observe_points h
  unfold Store.lanePoints
  rw [h, Table.rows_insert, List.filter_cons]
  by_cases hl : s.nodeID = n ∧ g.uuid = u ∧ s.bootID = b <;> simp [pointRow, hl]

end Observe

end CardScope.Ingestion
