import CardScope.Ingestion.Consistency

/-! # Where points and edges come from

Every stored point was built from a card of an accepted report, and every edge holds the
contributions between two such points. A property of single points therefore carries over
to all stored edges.
-/

namespace CardScope.Ingestion
open Library Model Hub

/-- All points satisfy `P`, and every edge integrates from such a state to the stored point that
it ends in. -/
structure Drawn (P : Point → Prop) (st : Store) : Prop where
  points : ∀ r ∈ st.points, P r.data
  edges : ∀ e ∈ st.edges, ∃ a, P a ∧ ∃ r ∈ st.points, r.key = e.key ∧
    e.data = contributions e.node e.uuid a r.data

variable {P : Point → Prop} {now : ℤ} {st tx tx' st' : Store} {s full : Snapshot}
  {node : NodeRow} {g : GPU}

theorem drawn_freshStore (P : Point → Prop) (nodes : Table NodeRow NodeRow.id) :
    Drawn P (freshStore nodes) := by
  constructor
  · exact fun r hr => absurd hr (Table.not_mem_empty r)
  · exact fun e he => absurd he (Table.not_mem_empty e)

theorem Drawn.observe (hd : Drawn P tx) (hP : P (pointOf s g))
    (h : Hub.observe s tx g = .ok tx') : Drawn P tx' := by
  obtain ⟨_, hpoints⟩ := observe_points h
  constructor
  · intro r hr
    rw [hpoints, Table.mem_insert] at hr
    rcases hr with rfl | hr
    · exact hP
    · exact hd.points r hr
  · intro e he
    rw [hpoints]
    rcases observe_edges h he with he | ⟨a, b, hb, ha, rfl⟩
    · obtain ⟨a, ha, r, hr, hk⟩ := hd.edges e he
      exact ⟨a, ha, r, Table.mem_insert.mpr (.inr hr), hk⟩
    · refine ⟨a, ?_, ?_⟩
      · rcases ha with rfl | ha
        · exact hP
        · obtain ⟨r, hr, -, -, -, rfl⟩ := Store.mem_lanePoints.mp ha
          exact hd.points r hr
      · rcases hb with rfl | hb
        · exact ⟨pointRow s g, Table.mem_insert.mpr (.inl rfl), rfl, rfl⟩
        · obtain ⟨r, hr, hn, hu, hboot, rfl⟩ := Store.mem_lanePoints.mp hb
          refine ⟨r, Table.mem_insert.mpr (.inr hr), ?_, rfl⟩
          rw [PointRow.key, EdgeRow.key, hn, hu, hboot, r.seq_data]

def Interval (P : Point → Prop) (e : EdgeRow) : Prop :=
  ∃ a b, P a ∧ P b ∧ e.data = contributions e.node e.uuid a b

theorem Drawn.interval (hd : Drawn P tx) {e : EdgeRow} (he : e ∈ tx.edges) : Interval P e := by
  obtain ⟨a, ha, r, hr, -, hdata⟩ := hd.edges e he
  exact ⟨a, r.data, ha, hd.points r hr, hdata⟩

/-- What every replacement of an edge between drawn points keeps, an observation keeps. -/
theorem observe_links {I : Table EdgeRow EdgeRow.key → Table RollupRow RollupRow.key → Prop}
    (hd : Drawn P tx) (hP : P (pointOf s g)) (h : Hub.observe s tx g = .ok tx')
    (step : ∀ t a b, (∀ e ∈ t.edges, Interval P e) → P a → P b → I t.edges t.rollups →
      I (replaceEdge t s.nodeID g.uuid s.bootID a b).edges
        (replaceEdge t s.nodeID g.uuid s.bootID a b).rollups)
    (start : I tx.edges tx.rollups) : I tx'.edges tx'.rollups := by
  obtain ⟨hkey, h⟩ := observe_ok h
  have hlane : ∀ {o : Option PointRow} {p : Point}, o.map PointRow.data = some p →
      (∀ r, o = some r → r ∈ tx.points) → P p := by
    intro o p ho hr
    obtain ⟨r, rfl, rfl⟩ := Option.map_eq_some_iff.mp ho
    exact hd.points r (hr r rfl)
  have hbefore : ∀ p, tx.pointBefore s.nodeID g.uuid s.bootID s.atMs = some p → P p := fun p hp =>
    hlane hp (fun r hr => List.mem_of_mem_filter (List.mem_of_mem_filter (latest_spec hr).1))
  have hafter : ∀ p, tx.pointAfter s.nodeID g.uuid s.bootID s.atMs = some p → P p := fun p hp =>
    hlane hp (fun r hr => List.mem_of_mem_filter
      (List.mem_reverse.mp (List.mem_of_mem_filter (earliest_spec hr).1)))
  have hfirst : ∀ a, P a → ∀ e ∈ (replaceEdge tx s.nodeID g.uuid s.bootID a (pointOf s g)).edges,
      Interval P e := by
    intro a ha e he
    rcases Table.mem_put.mp he with rfl | ⟨he, -⟩
    · exact ⟨a, pointOf s g, ha, hP, rfl⟩
    · exact hd.interval he
  rw [h]
  unfold linked
  cases hb : tx.pointBefore s.nodeID g.uuid s.bootID s.atMs with
  | none =>
    cases ha : tx.pointAfter s.nodeID g.uuid s.bootID s.atMs with
    | none => exact start
    | some c => exact step tx (pointOf s g) c (fun e => hd.interval) hP (hafter c ha) start
  | some a =>
    have hone := step tx a (pointOf s g) (fun e => hd.interval) (hbefore a hb) hP start
    cases ha : tx.pointAfter s.nodeID g.uuid s.bootID s.atMs with
    | none => exact hone
    | some c =>
      exact step (replaceEdge tx s.nodeID g.uuid s.bootID a (pointOf s g)) (pointOf s g) c
        (hfirst a (hbefore a hb)) hP (hafter c ha) hone

/-- A card that a report of this kind can list: its own, or one carried over. -/
def Observable (s : Snapshot) (g : GPU) : Prop := g ∈ s.gpus ∨ ∃ c, g = queryFailed s c

theorem Recorded.observable (h : Recorded now st s node full tx st') (hg : g ∈ full.gpus) :
    Observable s g := by
  rw [h.full_eq, List.mem_append] at hg
  rcases hg with hg | hg
  · exact .inl hg
  · unfold carriedOver at hg
    split_ifs at hg
    · exact absurd hg List.not_mem_nil
    · obtain ⟨c, -, rfl⟩ := List.mem_map.mp hg
      exact .inr ⟨c, rfl⟩

theorem Recorded.pointOf_full (h : Recorded now st s node full tx st') (g : GPU) :
    pointOf full g = pointOf s g := by
  rw [h.full_eq]
  rfl

theorem Recorded.bootID_full (h : Recorded now st s node full tx st') :
    full.bootID = s.bootID := by
  rw [h.full_eq]

theorem refreshLive_keeps (s : Snapshot) (node : NodeRow) (tx : Store) : ∃ nodes events,
    refreshLive s node tx = { tx with nodes := nodes, events := events } := by
  unfold refreshLive
  split_ifs <;> exact ⟨_, _, rfl⟩

theorem refreshReceived_keeps (now : ℤ) (s : Snapshot) (node : NodeRow) (tx : Store) : ∃ nodes,
    refreshReceived now s node tx = { tx with nodes := nodes } := by
  unfold refreshReceived
  split_ifs <;> exact ⟨_, rfl⟩

theorem Recorded.measurements (h : Recorded now st s node full tx st') :
    st'.points = tx.points ∧ st'.edges = tx.edges ∧ st'.samples = tx.samples ∧
      st'.rollups = tx.rollups ∧ st'.gpus = tx.gpus := by
  rw [h.result]
  obtain ⟨nodes, hreceived⟩ := refreshReceived_keeps now full node (refreshLive full node tx)
  obtain ⟨nodes', events, hlive⟩ := refreshLive_keeps full node tx
  rw [hreceived, hlive]
  exact ⟨rfl, rfl, rfl, rfl, rfl⟩

/-- Induction over the cards of a recorded upload: each card is observed while the sample row is
stored and its own points are still those from before the upload. -/
theorem Recorded.induction (h : Recorded now st s node full tx st') (hc : Consistent st s.nodeID)
    {I : Store → Prop} (start : I (withSample st s h.fresh))
    (step : ∀ g ∈ full.gpus, ∀ t t', I t → t.samples = st.samples.insert (sampleRow s) h.fresh →
      t.lanePoints s.nodeID g.uuid s.bootID = st.lanePoints s.nodeID g.uuid s.bootID →
      Hub.observe full t g = .ok t' → I t') : I tx := by
  have hnodup := h.full_nodup (hc.live_nodup node h.node_mem.1 h.node_mem.2)
  refine (foldlM_invariant (Hub.observe full)
    (fun rest t => I t ∧ t.samples = st.samples.insert (sampleRow s) h.fresh ∧
      (rest.map GPU.uuid).Nodup ∧ ∀ g ∈ rest, g ∈ full.gpus ∧
        t.lanePoints s.nodeID g.uuid s.bootID = st.lanePoints s.nodeID g.uuid s.bootID)
    ?_ ⟨start, rfl, hnodup, fun g hg => ⟨hg, rfl⟩⟩ h.observed).1
  rintro g rest t t' ⟨hI, hsamples, hrest, hlanes⟩ hstep
  obtain ⟨hg, hlane⟩ := hlanes g List.mem_cons_self
  rw [List.map_cons, List.nodup_cons] at hrest
  refine ⟨step g hg t t' hI hsamples hlane hstep, (observe_samples hstep).trans hsamples, hrest.2,
    fun c hcard => ?_⟩
  obtain ⟨hmem, hsame⟩ := hlanes c (List.mem_cons_of_mem _ hcard)
  refine ⟨hmem, ?_⟩
  rw [observe_lanePoints hstep, if_neg]
  · exact hsame
  · rintro ⟨-, hu, -⟩
    exact hrest.1 (hu ▸ List.mem_map_of_mem hcard)

theorem Recorded.samples_eq (h : Recorded now st s node full tx st') :
    st'.samples = st.samples.insert (sampleRow s) h.fresh := by
  rw [h.measurements.2.2.1]
  exact foldlM_invariant (Hub.observe full)
    (fun _ tx => tx.samples = st.samples.insert (sampleRow s) h.fresh)
    (fun g rest t t' ht hstep => (observe_samples hstep).trans ht) rfl h.observed

theorem Recorded.drawn (h : Recorded now st s node full tx st') (hd : Drawn P st)
    (hP : ∀ g, Observable s g → P (pointOf s g)) : Drawn P st' := by
  have hstart : Drawn P (withSample st s h.fresh) := ⟨hd.points, hd.edges⟩
  obtain ⟨htx, -⟩ := foldlM_invariant (Hub.observe full)
    (fun rest tx => Drawn P tx ∧ ∀ g ∈ rest, g ∈ full.gpus)
    (by
      rintro g rest t t' ⟨ht, hrest⟩ hstep
      have hg := hrest g List.mem_cons_self
      refine ⟨ht.observe ?_ hstep, fun c hc => hrest c (List.mem_cons_of_mem _ hc)⟩
      rw [h.pointOf_full]
      exact hP g (h.observable hg))
    ⟨hstart, fun g hg => hg⟩ h.observed
  obtain ⟨hpoints, hedges, -⟩ := h.measurements
  constructor
  · rw [hpoints]
    exact htx.points
  · rw [hpoints, hedges]
    exact htx.edges

/-- What every replacement of an edge between drawn points keeps, a recorded upload keeps. -/
theorem Recorded.links {I : Table EdgeRow EdgeRow.key → Table RollupRow RollupRow.key → Prop}
    (h : Recorded now st s node full tx st') (hc : Consistent st s.nodeID) (hd : Drawn P st)
    (hP : ∀ g, Observable s g → P (pointOf s g))
    (step : ∀ n u boot t a b, (∀ e ∈ t.edges, Interval P e) → P a → P b → I t.edges t.rollups →
      I (replaceEdge t n u boot a b).edges (replaceEdge t n u boot a b).rollups)
    (start : I st.edges st.rollups) : I st'.edges st'.rollups := by
  obtain ⟨-, hedges, -, hrollups, -⟩ := h.measurements
  rw [hedges, hrollups]
  refine (h.induction hc (I := fun t => I t.edges t.rollups ∧ Drawn P t)
    ⟨start, hd.points, hd.edges⟩ ?_).1
  rintro g hg t t' ⟨hI, hdrawn⟩ - - hstep
  have hpoint : P (pointOf full g) := by
    rw [h.pointOf_full]
    exact hP g (h.observable hg)
  exact ⟨observe_links hdrawn hpoint hstep (step _ _ _) hI, hdrawn.observe hpoint hstep⟩

theorem Drawn.ingested (hd : Drawn P st)
    (hP : Accepted now s → ∀ g, Observable s g → P (pointOf s g)) :
    Drawn P (Hub.ingested now st s) := by
  rcases ingested_cases now st s with h | ⟨node, full, tx, h⟩
  · rw [h]
    exact hd
  · exact h.drawn hd (hP h.accepted)

theorem rightRetained_at {e : EdgeRow} (h : rightRetained st now e = true) {r : PointRow}
    (hr : r ∈ st.points) (hk : r.key = e.key) : rawCutoff now ≤ r.atMs := by
  obtain ⟨p, hp, hcond⟩ := List.any_eq_true.mp h
  obtain ⟨hkey, hat⟩ := of_decide_eq_true hcond
  rw [Table.eq_of_key hr hp (hk.trans hkey.symm)]
  exact hat

theorem Drawn.prune (hd : Drawn P st) (now : ℤ) : Drawn P (Hub.prune now st) := by
  constructor
  · exact fun r hr => hd.points r (Table.mem_keep.mp hr).1
  · intro e he
    obtain ⟨he, hkept⟩ := Table.mem_keep.mp he
    obtain ⟨a, ha, r, hr, hk, hdata⟩ := hd.edges e he
    exact ⟨a, ha, r, Table.mem_keep.mpr ⟨hr, by simpa using rightRetained_at hkept hr hk⟩, hk, hdata⟩

/-- An invariant of every run is shown for a recorded upload and for a cleanup, of a store that is
consistent and whose points all have the property of the accepted observations. -/
theorem run_induction (I : Store → Prop) (nodes : Table NodeRow NodeRow.id) (events : List Event)
    (hP : ∀ now s, Event.ingest now s ∈ events → Accepted now s →
      ∀ g, Observable s g → P (pointOf s g))
    (hfresh : I (freshStore nodes))
    (hrecorded : ∀ now s st node full tx st', Event.ingest now s ∈ events →
      Recorded now st s node full tx st' → Consistent st s.nodeID → Drawn P st → I st → I st')
    (hprune : ∀ now st, Event.prune now ∈ events → Drawn P st → I st → I (Hub.prune now st)) :
    I (run (freshStore nodes) events) ∧ Drawn P (run (freshStore nodes) events) := by
  have hrun := foldl_invariant step
    (fun rest st => (I st ∧ (∀ n, Consistent st n) ∧ Drawn P st) ∧ ∀ e ∈ rest, e ∈ events)
    (fun e rest st ⟨⟨hI, hc, hd⟩, hrest⟩ =>
      ⟨?_, fun e' he' => hrest e' (List.mem_cons_of_mem _ he')⟩)
    events _ ⟨⟨hfresh, consistent_freshStore nodes, drawn_freshStore P nodes⟩, fun e he => he⟩
  · exact ⟨hrun.1.1, hrun.1.2.2⟩
  · have he := hrest e List.mem_cons_self
    cases e with
    | ingest now s =>
      refine ⟨?_, fun n => (hc n).ingested now s, hd.ingested (hP now s he)⟩
      rcases ingested_cases now st s with h | ⟨node, full, tx, h⟩
      · rw [step, h]
        exact hI
      · exact hrecorded now s st node full tx _ he h (hc _) hd hI
    | prune now => exact ⟨hprune now st he hd hI, fun n => (hc n).prune now, hd.prune now⟩

/-- What validation and the construction of points guarantee about every point. -/
structure Sound (p : Point) : Prop where
  interval_ge : 2 ≤ p.interval
  interval_le : p.interval ≤ 60
  util_bound : ∀ u ∈ p.util, 0 ≤ u ∧ u ≤ 100
  memory_nonneg : ∀ m ∈ p.memory, 0 ≤ m
  named : ∀ w ∈ p.users, w.1 ≠ ""
  users_occupied : ∀ w ∈ p.users, p.occupied

theorem mem_usersOf {processes : List Process} {w : String × String}
    (h : w ∈ usersOf processes) : w.1 ≠ "" ∧ processes ≠ [] := by
  refine ⟨?_, fun he => by simp [usersOf, he] at h⟩
  have hall := foldl_invariant (fun (users : StringMap) (pr : Process) =>
      if pr.uid != "" then users.set pr.uid pr.user else users)
    (fun _ users => ∀ w ∈ users, w.1 ≠ "")
    (by
      intro pr rest users husers w hw
      split_ifs at hw with hu
      · rcases Table.mem_put.mp hw with rfl | ⟨hw, -⟩
        · simpa using hu
        · exact husers w hw
      · exact husers w hw)
    processes Table.empty (fun w hw => absurd hw (Table.not_mem_empty w))
  exact hall w h

theorem sound_pointOf (h : Accepted now s) (hg : Observable s g) : Sound (pointOf s g) := by
  have hmetrics : (∀ u ∈ g.util, 0 ≤ u ∧ u ≤ 100) ∧ ∀ m ∈ g.memoryUsed, 0 ≤ m := by
    rcases hg with hg | ⟨c, rfl⟩
    · exact ⟨h.util_bound g hg, h.memory_nonneg g hg⟩
    · exact ⟨fun u hu => absurd hu (by simp [queryFailed]),
        fun m hm => absurd hm (by simp [queryFailed])⟩
  constructor
  · exact h.interval_ge
  · exact h.interval_le
  · intro u hu
    simp only [pointOf] at hu
    split_ifs at hu
    · exact hmetrics.1 u hu
    · exact absurd hu (by simp)
  · intro m hm
    simp only [pointOf] at hm
    split_ifs at hm
    · exact hmetrics.2 m hm
    · exact absurd hm (by simp)
  · exact fun w hw => (mem_usersOf hw).1
  · intro w hw
    simpa [pointOf] using (mem_usersOf hw).2

end CardScope.Ingestion
