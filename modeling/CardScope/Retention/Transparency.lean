import CardScope.Integration.Timeline

/-! # Cleanups are transparent

A run with cleanups is compared with the same run without them. The cleaned store keeps the
observations from the latest cutoff on; a report is at most 25 hours old when it arrives, so
what it looks up is either kept in both stores or too far away to be integrated to.
-/

namespace CardScope.Retention
open Library Model Hub Ingestion Integration

def clock : Event → ℤ
  | .ingest now _ => now
  | .prune now => now

def cleanups (events : List Event) : List ℤ :=
  events.filterMap (fun e => match e with | .ingest _ _ => none | .prune now => some now)

def uploads (events : List Event) : List Snapshot :=
  events.filterMap (fun e => match e with | .ingest _ s => some s | .prune _ => none)

def isUpload : Event → Bool
  | .ingest _ _ => true
  | .prune _ => false

def validated : Event → Bool
  | .ingest now s => validate now s = .ok ()
  | .prune _ => true

/-- Observations of this time are deleted by one of the cleanups. -/
def Deleted (cuts : List ℤ) (time : ℤ) : Prop := ∃ now ∈ cuts, time < rawCutoff now

instance (cuts : List ℤ) (time : ℤ) : Decidable (Deleted cuts time) :=
  inferInstanceAs (Decidable (∃ now ∈ cuts, time < rawCutoff now))

/-- The upload carries the identity of an earlier one of another time that a cleanup has
deleted. -/
def ReusesDeleted (earlier : List Event) : Event → Prop
  | .ingest _ s => ∃ s' ∈ uploads earlier, s'.identity = s.identity ∧ s'.atMs ≠ s.atMs ∧
      Deleted (cleanups earlier) s'.atMs
  | .prune _ => False

instance (earlier : List Event) : ∀ e, Decidable (ReusesDeleted earlier e)
  | .ingest _ s => inferInstanceAs (Decidable (∃ s' ∈ uploads earlier,
      s'.identity = s.identity ∧ s'.atMs ≠ s.atMs ∧ Deleted (cleanups earlier) s'.atMs))
  | .prune _ => inferInstanceAs (Decidable False)

theorem Deleted.of_le {cuts : List ℤ} {t t' : ℤ} (h : Deleted cuts t') (ht : t ≤ t') :
    Deleted cuts t := by
  obtain ⟨now, hnow, hlt⟩ := h
  exact ⟨now, hnow, ht.trans_lt hlt⟩

/-- What the cleaned store `st` still shares with the full store: all observations that are not
deleted, the intervals that end in them and the sum over the rollups in `q`. -/
structure Simulates (cuts : List ℤ) (q : RollupKey → Bool) (st full : Store) : Prop where
  nodes : st.nodes = full.nodes
  gpus : st.gpus = full.gpus
  samples : ∀ r, r ∈ st.samples ↔ r ∈ full.samples ∧ ¬ Deleted cuts r.atMs
  points : st.points.rows = full.points.rows.filter (fun r => ¬ Deleted cuts r.atMs)
  edges : ∀ r ∈ st.points, st.edgeData r.node r.uuid r.boot r.seq =
    full.edgeData r.node r.uuid r.boot r.seq
  rollups : st.rollupSum q = full.rollupSum q

section Lookup

variable {cuts : List ℤ} {q : RollupKey → Bool} {st full : Store} {n u b : String} {t : ℤ}

theorem Simulates.laneRows (h : Simulates cuts q st full) : st.laneRows n u b =
    (full.laneRows n u b).filter (fun r => ¬ Deleted cuts r.atMs) := by
  unfold Store.laneRows
  rw [h.points, List.filter_filter, List.filter_filter]
  exact List.filter_congr (fun r _ => Bool.and_comm _ _)

/-- The lookup backwards finds the same point in both stores, or one that only the full store
still has. -/
theorem Simulates.pointBefore (h : Simulates cuts q st full) :
    st.pointBefore n u b t = full.pointBefore n u b t ∨
    st.pointBefore n u b t = none ∧ ∃ r ∈ full.points, full.pointBefore n u b t = some r.data ∧
      Deleted cuts r.atMs := by
  unfold Store.pointBefore
  rw [h.laneRows, List.filter_filter, List.filter_congr (fun r _ => Bool.and_comm _ _),
    ← List.filter_filter, latest_filter]
  · cases hl : latest PointRow.atMs ((full.laneRows n u b).filter (fun r => r.atMs < t)) with
    | none => exact .inl rfl
    | some r =>
      by_cases hdel : Deleted cuts r.atMs
      · refine .inr ⟨by simp [Option.filter, hdel], r, ?_, rfl, hdel⟩
        exact List.mem_of_mem_filter (List.mem_of_mem_filter (latest_spec hl).1)
      · exact .inl (by simp [Option.filter, hdel])
  · intro a c ha hac
    simp only [decide_eq_true_eq] at ha ⊢
    exact fun hdel => ha (hdel.of_le hac)

/-- From a time that is not deleted on, both stores have the same points. -/
theorem Simulates.pointAfter (h : Simulates cuts q st full) (htime : ¬ Deleted cuts t) :
    st.pointAfter n u b t = full.pointAfter n u b t := by
  unfold Store.pointAfter
  rw [h.laneRows, ← List.filter_reverse, List.filter_filter]
  apply congrArg (fun l => (earliest PointRow.atMs l).map PointRow.data)
  apply List.filter_congr
  intro r _
  by_cases hat : r.atMs > t
  · have hkept : ¬ Deleted cuts r.atMs := fun hdel => htime (hdel.of_le hat.le)
    simp [hat, hkept]
  · simp [hat]

end Lookup

section Observe

variable {cuts : List ℤ} {q : RollupKey → Bool} {s : Snapshot} {g : GPU} {tx tx' full full' : Store}
  {P : Point → Prop}

def leftInterval (s : Snapshot) (g : GPU) (before : Option Point) : List Contribution :=
  before.elim [] (fun a => contributions s.nodeID g.uuid a (pointOf s g))

theorem edgeData_of_fresh (hd : Drawn P tx) (hkey : ¬ tx.points.HasKey (pointRow s g).key) :
    tx.edgeData s.nodeID g.uuid s.bootID s.seq = [] := by
  unfold Store.edgeData
  cases hf : tx.edges.find? (s.nodeID, g.uuid, s.bootID, s.seq) with
  | none => rfl
  | some e =>
    obtain ⟨he, hk⟩ := Table.find?_eq_some.mp hf
    obtain ⟨-, -, r, hr, hrk, -⟩ := hd.edges e he
    exact absurd ⟨r, hr, hrk.trans hk⟩ hkey

theorem pointAfter_spec {c : Point} (hkey : ¬ tx.points.HasKey (pointRow s g).key)
    (h : tx.pointAfter s.nodeID g.uuid s.bootID s.atMs = some c) :
    c.seq ≠ s.seq ∧ ∃ r ∈ tx.points, r.node = s.nodeID ∧ r.uuid = g.uuid ∧ r.boot = s.bootID ∧
      r.data = c := by
  obtain ⟨r, hr, rfl⟩ := Option.map_eq_some_iff.mp h
  have hlane := List.mem_reverse.mp (List.mem_of_mem_filter (earliest_spec hr).1)
  obtain ⟨hmem, hcard⟩ := List.mem_filter.mp hlane
  obtain ⟨hn, hu, hb⟩ := of_decide_eq_true hcard
  refine ⟨fun hseq => hkey ⟨r, hmem, ?_⟩, r, hmem, hn, hu, hb, rfl⟩
  rw [r.seq_data] at hseq
  rw [PointRow.key, hn, hu, hb, hseq]
  rfl

theorem observe_edgeData (hd : Drawn P tx) (h : observe s tx g = .ok tx') (n u b : String) (i : ℤ) :
    tx'.edgeData n u b i =
      if (s.nodeID, g.uuid, s.bootID) = (n, u, b) ∧
          (tx.pointAfter s.nodeID g.uuid s.bootID s.atMs).map Point.seq = some i then
        (tx.pointAfter s.nodeID g.uuid s.bootID s.atMs).elim []
          (contributions s.nodeID g.uuid (pointOf s g))
      else if (s.nodeID, g.uuid, s.bootID) = (n, u, b) ∧ s.seq = i then
        leftInterval s g (tx.pointBefore s.nodeID g.uuid s.bootID s.atMs)
      else tx.edgeData n u b i := by
  obtain ⟨hkey, hstore⟩ := observe_ok h
  have hfresh := edgeData_of_fresh hd hkey
  have hlinked : tx'.edgeData n u b i = (linked s tx g hkey).edgeData n u b i := by
    rw [hstore]
    rfl
  rw [hlinked, linked, edgeData_linkNeighbours]
  apply if_congr Iff.rfl rfl
  cases tx.pointBefore s.nodeID g.uuid s.bootID s.atMs with
  | some a =>
    simp only [Option.isSome_some, and_true]
    rfl
  | none =>
    simp only [Option.isSome_none, Bool.false_eq_true, and_false, if_false, leftInterval,
      Option.elim_none]
    split_ifs with hi
    · obtain ⟨hcard, rfl⟩ := hi
      simp only [Prod.mk.injEq] at hcard
      rw [← hcard.1, ← hcard.2.1, ← hcard.2.2]
      exact hfresh
    · rfl

theorem observe_rollupSum (hd : Drawn P tx) (h : observe s tx g = .ok tx') (q : RollupKey → Bool) :
    tx'.rollupSum q = tx.rollupSum q -
      (tx.pointAfter s.nodeID g.uuid s.bootID s.atMs).elim 0
        (fun c => total q (tx.edgeData s.nodeID g.uuid s.bootID c.seq)) +
      total q (leftInterval s g (tx.pointBefore s.nodeID g.uuid s.bootID s.atMs)) +
      bridge (fun a c => total q (contributions s.nodeID g.uuid a c)) (some (pointOf s g))
        (tx.pointAfter s.nodeID g.uuid s.bootID s.atMs) := by
  obtain ⟨hkey, hstore⟩ := observe_ok h
  have hfresh := edgeData_of_fresh hd hkey
  have hlinked : tx'.rollupSum q = (linked s tx g hkey).rollupSum q := by
    rw [hstore]
    rfl
  rw [hlinked, linked, rollupSum_linkNeighbours]
  · cases tx.pointBefore s.nodeID g.uuid s.bootID s.atMs <;> rfl
  · exact hfresh
  · exact fun c hc => (pointAfter_spec hkey hc).1

/-- An interval that starts before the cutoffs is too long to be integrated. -/
theorem Simulates.leftInterval (h : Simulates cuts q tx full) (hd : Drawn Sound full)
    (hfar : ∀ time, Deleted cuts time → s.atMs - time > 120000) :
    leftInterval s g (tx.pointBefore s.nodeID g.uuid s.bootID s.atMs) =
      leftInterval s g (full.pointBefore s.nodeID g.uuid s.bootID s.atMs) := by
  rcases h.pointBefore (n := s.nodeID) (u := g.uuid) (b := s.bootID) (t := s.atMs) with
    heq | ⟨hnone, r, hr, hsome, hdel⟩
  · rw [heq]
  · rw [hnone, hsome, Retention.leftInterval, Retention.leftInterval, Option.elim_none,
      Option.elim_some, contributions_of_not_bridged]
    have hinterval := (hd.points r hr).interval_le
    have hgap := hfar r.atMs hdel
    rintro ⟨-, hle⟩
    change s.atMs - r.data.atMs ≤ _ at hle
    rw [r.at_data] at hle
    omega

theorem Simulates.observe (h : Simulates cuts q tx full) (hd : Drawn Sound tx)
    (hdf : Drawn Sound full) (hkept : ¬ Deleted cuts s.atMs)
    (hfar : ∀ time, Deleted cuts time → s.atMs - time > 120000)
    (ho : Hub.observe s tx g = .ok tx') (hof : Hub.observe s full g = .ok full') :
    Simulates cuts q tx' full' := by
  have hafter := h.pointAfter (n := s.nodeID) (u := g.uuid) (b := s.bootID) hkept
  have hleft := h.leftInterval (g := g) hdf hfar
  obtain ⟨hkey, hpoints⟩ := observe_points ho
  obtain ⟨_, hpointsf⟩ := observe_points hof
  constructor
  · rw [observe_nodes ho, observe_nodes hof, h.nodes]
  · rw [observe_gpus ho, observe_gpus hof, h.gpus]
  · rw [observe_samples ho, observe_samples hof]
    exact h.samples
  · rw [hpoints, hpointsf, Table.rows_insert, Table.rows_insert, List.filter_cons_of_pos, h.points]
    exact decide_eq_true hkept
  · intro r hr
    rw [observe_edgeData hd ho, observe_edgeData hdf hof, hafter, hleft]
    apply if_congr Iff.rfl rfl
    rw [hpoints, Table.mem_insert] at hr
    rcases hr with rfl | hr
    · rw [if_pos ⟨rfl, rfl⟩, if_pos ⟨rfl, rfl⟩]
    · rw [h.edges r hr]
  · have hold : (full.pointAfter s.nodeID g.uuid s.bootID s.atMs).elim 0
          (fun c => total q (tx.edgeData s.nodeID g.uuid s.bootID c.seq)) =
        (full.pointAfter s.nodeID g.uuid s.bootID s.atMs).elim 0
          (fun c => total q (full.edgeData s.nodeID g.uuid s.bootID c.seq)) := by
      cases hc : full.pointAfter s.nodeID g.uuid s.bootID s.atMs with
      | none => rfl
      | some c =>
        obtain ⟨-, r, hr, hn, hu, hb, rfl⟩ := pointAfter_spec hkey (hafter.trans hc)
        have hedge := h.edges r hr
        rw [hn, hu, hb, ← r.seq_data] at hedge
        rw [Option.elim_some, Option.elim_some, hedge]
    rw [observe_rollupSum hd ho, observe_rollupSum hdf hof, hafter, hleft, hold, h.rollups]

end Observe

section Call

variable {cuts : List ℤ} {q : RollupKey → Bool} {now : ℤ} {s : Snapshot} {st full : Store}

theorem Simulates.withSample (h : Simulates cuts q st full) (hkept : ¬ Deleted cuts s.atMs)
    (hfresh : ¬ st.samples.HasKey (sampleRow s).key)
    (hfreshf : ¬ full.samples.HasKey (sampleRow s).key) :
    Simulates cuts q (withSample st s hfresh) (withSample full s hfreshf) := by
  refine ⟨h.nodes, h.gpus, fun r => ?_, h.points, h.edges, h.rollups⟩
  have hmem : ∀ {t : Store} {ht : ¬ t.samples.HasKey (sampleRow s).key},
      r ∈ (Ingestion.withSample t s ht).samples ↔ r = sampleRow s ∨ r ∈ t.samples := List.mem_cons
  rw [hmem, hmem, h.samples, or_and_right]
  refine or_congr_left ⟨fun hr => ⟨hr, ?_⟩, And.left⟩
  rw [hr]
  exact hkept

variable {node nodef : NodeRow} {rep repf : Snapshot} {tx txf st' full' : Store}

theorem Simulates.node_eq (h : Simulates cuts q st full) (hr : Recorded now st s node rep tx st')
    (hrf : Recorded now full s nodef repf txf full') : nodef = node := by
  have hreg := hr.registered
  rw [h.nodes, hrf.registered] at hreg
  exact Option.some.inj hreg

theorem Simulates.report_eq (h : Simulates cuts q st full)
    (hr : Recorded now st s node rep tx st') (hrf : Recorded now full s node repf txf full') :
    repf = rep := by
  have hcarries : ∀ g, Carries (Ingestion.withSample full s hrf.fresh) s g ↔
      Carries (Ingestion.withSample st s hr.fresh) s g := by
    intro g
    unfold Carries Ingestion.withSample
    rw [h.gpus]
  rw [hr.full_eq, hrf.full_eq]
  unfold carriedOver
  simp only [hcarries]

theorem Simulates.refresh (h : Simulates cuts q tx txf) (hr : Recorded now st s node rep tx st')
    (hrf : Recorded now full s node rep txf full') : Simulates cuts q st' full' := by
  obtain ⟨hpoints, hedges, hsamples, hrollups, hgpus⟩ := hr.measurements
  obtain ⟨hpointsf, hedgesf, hsamplesf, hrollupsf, hgpusf⟩ := hrf.measurements
  have hlive : (refreshLive rep node tx).nodes = (refreshLive rep node txf).nodes := by
    unfold refreshLive
    split_ifs
    · simp only [h.nodes]
    · exact h.nodes
  constructor
  · rw [hr.result, hrf.result]
    unfold refreshReceived
    split_ifs
    · simp only [hlive]
    · exact hlive
  · rw [hgpus, hgpusf, h.gpus]
  · rw [hsamples, hsamplesf]
    exact h.samples
  · rw [hpoints, hpointsf, h.points]
  · unfold Store.edgeData
    rw [hpoints, hedges, hedgesf]
    exact h.edges
  · unfold Store.rollupSum
    rw [hrollups, hrollupsf]
    exact h.rollups

theorem Simulates.recorded (h : Simulates cuts q st full) (hd : Drawn Sound st)
    (hdf : Drawn Sound full) (hkept : ¬ Deleted cuts s.atMs)
    (hfar : ∀ time, Deleted cuts time → s.atMs - time > 120000)
    (hr : Recorded now st s node rep tx st') (hrf : Recorded now full s nodef repf txf full') :
    Simulates cuts q st' full' := by
  obtain rfl := h.node_eq hr hrf
  obtain rfl := h.report_eq hr hrf
  obtain ⟨hsim, -⟩ := foldlM_simulation (Hub.observe repf)
    (fun rest t tf => Simulates cuts q t tf ∧ Drawn Sound t ∧ Drawn Sound tf ∧
      ∀ g ∈ rest, g ∈ repf.gpus)
    (by
      rintro g rest t tf t' tf' ⟨hsim, hdt, hdtf, hrest⟩ ho hof
      have hpoint : Sound (pointOf repf g) := by
        rw [hr.pointOf_full]
        exact sound_pointOf hr.accepted (hr.observable (hrest g List.mem_cons_self))
      refine ⟨hsim.observe hdt hdtf ?_ ?_ ho hof, hdt.observe hpoint ho, hdtf.observe hpoint hof,
        fun c hc => hrest c (List.mem_cons_of_mem _ hc)⟩
      · rw [hr.atMs_full]
        exact hkept
      · rw [hr.atMs_full]
        exact hfar)
    ⟨h.withSample hkept hr.fresh hrf.fresh, ⟨hd.points, hd.edges⟩, ⟨hdf.points, hdf.edges⟩,
      fun g hg => hg⟩ hr.observed hrf.observed
  exact hsim.refresh hr hrf

/-- An upload that does not reuse a deleted identity keeps the stores related. A retransmission
of a deleted sample is too old to be accepted. -/
theorem Simulates.ingested (h : Simulates cuts q st full) (hc : ∀ n, Consistent st n)
    (hcf : ∀ n, Consistent full n) (hd : Drawn Sound st) (hdf : Drawn Sound full)
    (hclock : ∀ np ∈ cuts, np ≤ now)
    (hreuse : ∀ r ∈ full.samples, r.key = s.identity → Deleted cuts r.atMs → r.atMs = s.atMs) :
    Simulates cuts q (Hub.ingested now st s) (Hub.ingested now full s) := by
  -- a cutoff is 48 hours before a time not after this call, an accepted sample at most 25
  have hfar : validate now s = .ok () → ∀ time, Deleted cuts time → s.atMs - time > 120000 := by
    rintro hv time ⟨np, hnp, hlt⟩
    have hle := hclock np hnp
    have hat := (validate_ok hv).at_ge
    unfold rawCutoff at hlt
    omega
  have hkept : validate now s = .ok () → ¬ Deleted cuts s.atMs := fun hv hdel =>
    absurd (hfar hv _ hdel) (by omega)
  have hknown : validate now s = .ok () →
      (st.samples.HasKey (sampleRow s).key ↔ full.samples.HasKey (sampleRow s).key) := by
    intro hv
    constructor
    · rintro ⟨r, hr, hk⟩
      exact ⟨r, ((h.samples r).mp hr).1, hk⟩
    · rintro ⟨r, hr, hk⟩
      refine ⟨r, (h.samples r).mpr ⟨hr, fun hdel => ?_⟩, hk⟩
      rw [hreuse r hr hk hdel] at hdel
      exact hkept hv hdel
  have hiff : Storable now st s ↔ Storable now full s := by
    unfold Storable
    apply and_congr_right
    intro hv
    rw [hknown hv, h.nodes]
  by_cases hst : Storable now st s
  · obtain ⟨node, rep, tx, hr⟩ := recorded_of_storable (hc s.nodeID) hst
    obtain ⟨nodef, repf, txf, hrf⟩ := recorded_of_storable (hcf s.nodeID) (hiff.mp hst)
    exact h.recorded hd hdf (hkept hst.1) (hfar hst.1) hr hrf
  · rw [ingested_of_not_storable hst, ingested_of_not_storable (fun hf => hst (hiff.mpr hf))]
    exact h

/-- A cleanup that expires none of the rollups in question keeps the stores related. -/
theorem Simulates.prune (h : Simulates cuts q st full) (np : ℤ)
    (hq : ∀ k, q k → expired np k = false) : Simulates (np :: cuts) q (prune np st) full := by
  have hdeleted : ∀ t, Deleted (np :: cuts) t ↔ t < rawCutoff np ∨ Deleted cuts t := by
    intro t
    unfold Deleted
    rw [List.exists_mem_cons_iff]
  constructor
  · exact h.nodes
  · exact h.gpus
  · intro r
    change r ∈ st.samples.keep _ ↔ _
    rw [Table.mem_keep, h.samples, hdeleted, not_or, not_lt, and_assoc, decide_eq_true_eq,
      and_comm (a := ¬ Deleted cuts r.atMs)]
  · change st.points.rows.filter _ = _
    rw [h.points, List.filter_filter]
    apply List.filter_congr
    intro r _
    simp only [hdeleted, not_or, not_lt, Bool.decide_and, ge_iff_le]
  · intro r hr
    obtain ⟨hr, hat⟩ := Table.mem_keep.mp hr
    rw [← h.edges r hr]
    unfold Store.edgeData
    change ((st.edges.keep (rightRetained st np)).find? _).elim [] _ = _
    rw [Table.find?_keep]
    cases hf : st.edges.find? (r.node, r.uuid, r.boot, r.seq) with
    | none => rfl
    | some e =>
      have hkept : rightRetained st np e = true :=
        List.any_eq_true.mpr ⟨r, hr, decide_eq_true
          ⟨(Table.find?_eq_some.mp hf).2.symm, by simpa using hat⟩⟩
      simp [Option.filter, hkept]
  · rw [← h.rollups]
    refine Table.sum_keep_of_zero _ _ _ (fun r _ hexp => if_neg (fun hk => ?_))
    rw [hq r.key hk] at hexp
    exact absurd hexp (by decide)

end Call

section Run

variable {q : RollupKey → Bool}

def fullStep (x : List Event × Store) (e : Event) : List Event × Store :=
  (e :: x.1, if isUpload e then step x.2 e else x.2)

theorem foldl_fullStep (events : List Event) (x : List Event × Store) :
    (events.foldl fullStep x).2 = run x.2 (events.filter isUpload) := by
  induction events generalizing x with
  | nil => rfl
  | cons e rest ih =>
    rw [List.foldl_cons, ih, fullStep, List.filter_cons]
    cases e <;> rfl

/-- What relates the two runs before the events still to come. -/
structure InStep (q : RollupKey → Bool) (rest : List Event) (st : Store)
    (x : List Event × Store) : Prop where
  simulates : Simulates (cleanups x.1) q st x.2
  consistent : ∀ n, Consistent st n
  consistent_full : ∀ n, Consistent x.2 n
  drawn : Drawn Sound st
  drawn_full : Drawn Sound x.2
  uploaded : ∀ r ∈ x.2.samples, ∃ s ∈ uploads x.1, s.identity = r.key ∧ s.atMs = r.atMs
  reuse : Along (fun earlier e => e :: earlier) (fun earlier e => ¬ ReusesDeleted earlier e) x.1 rest
  clock_rest : (rest.map clock).Pairwise (· ≤ ·)
  clock_earlier : ∀ np ∈ cleanups x.1, ∀ e ∈ rest, np ≤ clock e
  retained : ∀ np ∈ cleanups rest, ∀ k, q k → expired np k = false

theorem InStep.step {e : Event} {rest : List Event} {st : Store} {x : List Event × Store}
    (h : InStep q (e :: rest) st x) : InStep q rest (Hub.step st e) (fullStep x e) := by
  obtain ⟨hhead, hrest⟩ := List.pairwise_cons.mp h.clock_rest
  cases e with
  | ingest now s =>
    have hreuse : ∀ r ∈ x.2.samples, r.key = s.identity → Deleted (cleanups x.1) r.atMs →
        r.atMs = s.atMs := by
      intro r hr hk hdel
      obtain ⟨s', hs', hid, hat⟩ := h.uploaded r hr
      by_contra hne
      rw [← hat] at hne hdel
      exact h.reuse.1 ⟨s', hs', hid.trans hk, hne, hdel⟩
    have hclock : ∀ np ∈ cleanups x.1, np ≤ now := fun np hnp =>
      h.clock_earlier np hnp _ List.mem_cons_self
    constructor
    · exact h.simulates.ingested h.consistent h.consistent_full h.drawn h.drawn_full hclock hreuse
    · exact fun n => (h.consistent n).ingested now s
    · exact fun n => (h.consistent_full n).ingested now s
    · exact h.drawn.ingested (fun ha g => sound_pointOf ha)
    · exact h.drawn_full.ingested (fun ha g => sound_pointOf ha)
    · intro r hr
      have hold : r ∈ x.2.samples →
          ∃ s' ∈ s :: uploads x.1, s'.identity = r.key ∧ s'.atMs = r.atMs := by
        intro hr
        obtain ⟨s', hs', heq⟩ := h.uploaded r hr
        exact ⟨s', List.mem_cons_of_mem _ hs', heq⟩
      change ∃ s' ∈ s :: uploads x.1, s'.identity = r.key ∧ s'.atMs = r.atMs
      change r ∈ (ingested now x.2 s).samples at hr
      rcases ingested_cases now x.2 s with heq | ⟨node, full, tx, hrec⟩
      · rw [heq] at hr
        exact hold hr
      · rw [hrec.samples_eq, Table.mem_insert] at hr
        rcases hr with rfl | hr
        · exact ⟨s, List.mem_cons_self, rfl, rfl⟩
        · exact hold hr
    · exact h.reuse.2
    · exact hrest
    · exact fun np hnp e he => h.clock_earlier np hnp e (List.mem_cons_of_mem _ he)
    · exact h.retained
  | prune now =>
    constructor
    · exact h.simulates.prune now (h.retained now List.mem_cons_self)
    · exact fun n => (h.consistent n).prune now
    · exact h.consistent_full
    · exact h.drawn.prune now
    · exact h.drawn_full
    · exact h.uploaded
    · exact h.reuse.2
    · exact hrest
    · intro np hnp e he
      rcases List.mem_cons.mp hnp with rfl | hnp
      · exact hhead _ (List.mem_map_of_mem he)
      · exact h.clock_earlier np hnp e (List.mem_cons_of_mem _ he)
    · exact fun np hnp => h.retained np (List.mem_cons_of_mem _ hnp)

end Run

/-- Under a clock that never runs back, and when no upload takes over the identity of a deleted
sample for another time, every rollup that all cleanups retain is the same as without any cleanup. -/
theorem rollup_eq_withoutCleanups (nodes : Table NodeRow NodeRow.id) (events : List Event)
    (hclock : (events.map clock).Pairwise (· ≤ ·))
    (hreuse : Along (fun earlier e => e :: earlier) (fun earlier e => ¬ ReusesDeleted earlier e)
      [] events)
    (k : RollupKey) (hk : ∀ now ∈ cleanups events, expired now k = false) :
    (run (freshStore nodes) events).rollup k =
      (run (freshStore nodes) (events.filter isUpload)).rollup k := by
  have hstart : InStep (fun l => l = k) events (freshStore nodes) ([], freshStore nodes) := by
    refine ⟨⟨rfl, rfl, fun r => ?_, rfl, fun r hr => rfl, rfl⟩, consistent_freshStore nodes,
      consistent_freshStore nodes, drawn_freshStore _ nodes, drawn_freshStore _ nodes,
      fun r hr => absurd hr (Table.not_mem_empty r), hreuse, hclock,
      fun np hnp => absurd hnp List.not_mem_nil, fun np hnp l hl => ?_⟩
    · exact ⟨fun hr => absurd hr (Table.not_mem_empty r), fun hr => hr.1⟩
    · rw [of_decide_eq_true hl]
      exact hk np hnp
  have hend := foldl_simulation step fullStep (InStep (fun l => l = k))
    (fun e rest st x h => h.step) events _ _ hstart
  have hsums := hend.simulates.rollups
  rw [foldl_fullStep, Store.rollupSum_eq, Store.rollupSum_eq] at hsums
  exact hsums

/-- Two samples, a cleanup that deletes them, and a new pair. -/
def cleanedEvents : List Event :=
  [.ingest 1700000041000 (sample "n" 1 1700000041000),
    .ingest 1700000046000 (sample "n" 2 1700000046000), .prune 1700180041000,
    .ingest 1700180041000 (sample "n" 3 1700180041000),
    .ingest 1700180046000 (sample "n" 4 1700180046000)]

theorem rollup_eq_withoutCleanups_minute :
    (run (freshStore (node "n")) cleanedEvents).rollup
      ⟨"n", "GPU-test", "", 60000, 1700000040000⟩ =
    (run (freshStore (node "n")) (cleanedEvents.filter isUpload)).rollup
      ⟨"n", "GPU-test", "", 60000, 1700000040000⟩ :=
  rollup_eq_withoutCleanups (node "n") cleanedEvents (by decide +kernel) (by decide +kernel)
    ⟨"n", "GPU-test", "", 60000, 1700000040000⟩ (by decide +kernel)

/-- An identity that comes back with a new time after its sample was deleted: the cleaned store
takes it for a new sample, the full store for a repetition. -/
def reusedEvents : List Event :=
  [.ingest 1700000041000 (sample "n" 1 1700000041000), .prune 1700180041000,
    .ingest 1700180041000 (sample "n" 1 1700180041000),
    .ingest 1700180046000 (sample "n" 2 1700180046000)]

theorem rollup_ne_withoutCleanups : ¬ ∀ (nodes : Table NodeRow NodeRow.id) (events : List Event),
    (events.map clock).Pairwise (· ≤ ·) → (∀ e ∈ events, validated e) →
    ∀ k, (∀ now ∈ cleanups events, expired now k = false) →
      (run (freshStore nodes) events).rollup k =
        (run (freshStore nodes) (events.filter isUpload)).rollup k := by
  intro h
  have hminute := h (node "n") reusedEvents (by decide +kernel) (by decide +kernel)
    ⟨"n", "GPU-test", "", 60000, 1700180040000⟩ (by decide +kernel)
  exact absurd hminute (by decide +kernel)

end CardScope.Retention
