import CardScope.Attribution.Aspects
import CardScope.Ingestion.Effects

/-! # Two runs with different process lists

The uploads of two runs differ in their process lists only. Sample by sample the stores keep the
same samples, cards and neighbours, twin points, intervals between twin points, and rollups
that agree on the aspect that the lists leave alone.
-/

namespace CardScope.Attribution
open Library Model Hub Ingestion Integration

variable {L : List Process → List Process → Prop} {v : Aspect} {st st' tx tx' t t' : Store}
  {s s' full full' : Snapshot} {g g' : GPU} {node node' : NodeRow} {now now' : ℤ}
  {a a' c c' : Point}

/-- Twin points contribute the same to the aspect. -/
structure Compatible (L : List Process → List Process → Prop) (v : Aspect) : Prop where
  empty : L [] []
  same : ∀ {p p'}, Twins L p p' → ∀ n u res s, v.SameContributions (sliceContributions n u p res s)
    (sliceContributions n u p' res s)

/-- Two node rows whose live states differ in process lists only. -/
structure SameLive (r r' : NodeRow) : Prop where
  sampleAt : r'.sampleAt = r.sampleAt
  cards : List.Forall₂ (SameCard fun _ _ => True) r.snapshot.gpus r'.snapshot.gpus

structure SameInterval (L : List Process → List Process → Prop) (e e' : EdgeRow) : Prop where
  node : e'.node = e.node
  uuid : e'.uuid = e.uuid
  ends : ∃ a c a' c', Twins L a a' ∧ Twins L c c' ∧ e.data = contributions e.node e.uuid a c ∧
    e'.data = contributions e.node e.uuid a' c'

structure Parallel (L : List Process → List Process → Prop) (v : Aspect) (st st' : Store) :
    Prop where
  samples : st'.samples = st.samples
  gpus : st'.gpus = st.gpus
  nodes : ∀ n, Option.Rel SameLive (st.nodes.find? n) (st'.nodes.find? n)
  points : Table.Aligned (fun r r' => Twins L r.data r'.data) st.points st'.points
  edges : Table.Aligned (SameInterval L) st.edges st'.edges
  rollups : v.SameRows st.rollups st'.rollups

theorem Compatible.contributions (hL : Compatible L v) (ha : Twins L a a') (hc : Twins L c c')
    (n u : String) :
    v.SameContributions (Hub.contributions n u a c) (Hub.contributions n u a' c') :=
  Aspect.sameContributions_of_slices ⟨ha.atMs_eq, ha.interval_eq⟩ hc.atMs_eq (hL.same ha n u)

namespace Parallel

section Observe

theorem edgeData (h : Parallel L v tx tx') (hL : Compatible L v) (n u b : String) (seq : ℤ) :
    v.SameContributions (tx.edgeData n u b seq) (tx'.edgeData n u b seq) := by
  have hedge := h.edges.find? (n, u, b, seq)
  unfold Store.edgeData
  generalize tx.edges.find? (n, u, b, seq) = o at hedge ⊢
  generalize tx'.edges.find? (n, u, b, seq) = o' at hedge ⊢
  cases hedge with
  | none => exact fun k _ => rfl
  | some he =>
    obtain ⟨a, c, a', c', ha, hc, hdata, hdata'⟩ := he.ends
    rw [Option.elim_some, Option.elim_some, hdata, hdata']
    exact hL.contributions ha hc _ _

theorem replaceEdge (h : Parallel L v tx tx') (hL : Compatible L v) (ha : Twins L a a')
    (hc : Twins L c c') (n u b : String) :
    Parallel L v (Hub.replaceEdge tx n u b a c) (Hub.replaceEdge tx' n u b a' c') := by
  refine ⟨h.samples, h.gpus, h.nodes, h.points, ?_, ?_⟩
  · refine h.edges.put ?_ ⟨rfl, rfl, a, c, a', c', ha, hc, rfl, rfl⟩
    simp only [EdgeRow.key, hc.seq_eq]
  · rw [replaceEdge_rollups, replaceEdge_rollups, hc.seq_eq]
    exact (h.rollups.apply (h.edgeData hL n u b c.seq) (-1)).apply (hL.contributions ha hc n u) 1

theorem laneRows (h : Parallel L v tx tx') (n u b : String) :
    List.Forall₂ (fun r r' : PointRow => Twins L r.data r'.data) (tx.laneRows n u b)
      (tx'.laneRows n u b) := by
  have hlane : Table.Aligned (fun r r' => Twins L r.data r'.data)
      (tx.points.keep (fun r => r.node = n ∧ r.uuid = u ∧ r.boot = b))
      (tx'.points.keep (fun r => r.node = n ∧ r.uuid = u ∧ r.boot = b)) :=
    h.points.keep (fun r r' hkey _ => by
      simp only [PointRow.key, Prod.mk.injEq] at hkey
      rw [hkey.1, hkey.2.1, hkey.2.2.1])
  exact List.Forall₂.imp (fun _ _ hr => hr.2) hlane

theorem atMs_eq {r r' : PointRow} (h : Twins L r.data r'.data) : r'.atMs = r.atMs := by
  rw [← r.at_data, ← r'.at_data, h.atMs_eq]

theorem pointBefore (h : Parallel L v tx tx') (n u b : String) (time : ℤ) :
    Option.Rel (Twins L) (tx.pointBefore n u b time) (tx'.pointBefore n u b time) := by
  have hrows : List.Forall₂ (fun r r' : PointRow => Twins L r.data r'.data)
      ((tx.laneRows n u b).filter (fun r => r.atMs < time))
      ((tx'.laneRows n u b).filter (fun r => r.atMs < time)) :=
    List.rel_filter (fun {r r'} hr => by simp [atMs_eq hr]) (h.laneRows n u b)
  have hlast : Option.Rel _ (latest PointRow.atMs _) (latest PointRow.atMs _) :=
    latest_parallel (fun r r' hr => (atMs_eq hr).symm) hrows
  unfold Store.pointBefore
  generalize latest PointRow.atMs _ = o at hlast ⊢
  generalize latest PointRow.atMs _ = o' at hlast ⊢
  cases hlast with
  | none => exact .none
  | some hr => exact .some hr

theorem pointAfter (h : Parallel L v tx tx') (n u b : String) (time : ℤ) :
    Option.Rel (Twins L) (tx.pointAfter n u b time) (tx'.pointAfter n u b time) := by
  have hrows : List.Forall₂ (fun r r' : PointRow => Twins L r.data r'.data)
      ((tx.laneRows n u b).reverse.filter (fun r => r.atMs > time))
      ((tx'.laneRows n u b).reverse.filter (fun r => r.atMs > time)) :=
    List.rel_filter (fun {r r'} hr => by simp [atMs_eq hr]) (List.rel_reverse (h.laneRows n u b))
  have hfirst : Option.Rel _ (earliest PointRow.atMs _) (earliest PointRow.atMs _) :=
    earliest_parallel (fun r r' hr => (atMs_eq hr).symm) hrows
  unfold Store.pointAfter
  generalize earliest PointRow.atMs _ = o at hfirst ⊢
  generalize earliest PointRow.atMs _ = o' at hfirst ⊢
  cases hfirst with
  | none => exact .none
  | some hr => exact .some hr

theorem linkNeighbours (h : Parallel L v tx tx') (hL : Compatible L v) {p p' : Point}
    {before before' after after' : Option Point} (hp : Twins L p p')
    (hbefore : Option.Rel (Twins L) before before') (hafter : Option.Rel (Twins L) after after')
    (n u b : String) : Parallel L v (Hub.linkNeighbours tx n u b p before after)
      (Hub.linkNeighbours tx' n u b p' before' after') := by
  cases hbefore with
  | none =>
    cases hafter with
    | none => exact h
    | some hc => exact h.replaceEdge hL hp hc n u b
  | some ha =>
    cases hafter with
    | none => exact h.replaceEdge hL ha hp n u b
    | some hc => exact (h.replaceEdge hL ha hp n u b).replaceEdge hL hp hc n u b

theorem observe (h : Parallel L v tx tx') (hL : Compatible L v)
    (hs : s' = { s with gpus := s'.gpus }) (hg : SameCard L g g')
    (hp : Twins L (pointOf s g) (pointOf s' g')) (ho : Hub.observe s tx g = .ok t)
    (ho' : Hub.observe s' tx' g' = .ok t') : Parallel L v t t' := by
  have hnode : s'.nodeID = s.nodeID := by rw [hs]
  have hboot : s'.bootID = s.bootID := by rw [hs]
  have hat : s'.atMs = s.atMs := by rw [hs]
  have huuid : g'.uuid = g.uuid := by rw [hg.rest]
  have hgpu : upsertGPU tx'.gpus s' g' = upsertGPU tx.gpus s g := by
    rw [h.gpus, hs, hg.rest]
    rfl
  obtain ⟨hkey, ht⟩ := observe_ok ho
  obtain ⟨hkey', ht'⟩ := observe_ok ho'
  have hinserted : Parallel L v { tx with points := tx.points.insert (pointRow s g) hkey }
      { tx' with points := tx'.points.insert (pointRow s' g') hkey' } := by
    have hrow : (pointRow s g).key = (pointRow s' g').key := by
      rw [hs, hg.rest]
      rfl
    exact ⟨h.samples, h.gpus, h.nodes, h.points.insert hrow hp hkey hkey', h.edges, h.rollups⟩
  have hlinked := hinserted.linkNeighbours hL hp (h.pointBefore s.nodeID g.uuid s.bootID s.atMs)
    (h.pointAfter s.nodeID g.uuid s.bootID s.atMs) s.nodeID g.uuid s.bootID
  rw [ht, ht']
  unfold linked
  rw [hnode, hboot, huuid, hat]
  exact ⟨h.samples, hgpu, h.nodes, hinserted.points, hlinked.edges, hlinked.rollups⟩

end Observe

section Reports

theorem withSample (h : Parallel L v st st') (hs : SameReport L s s')
    (hfresh : ¬ st.samples.HasKey (sampleRow s).key)
    (hfresh' : ¬ st'.samples.HasKey (sampleRow s').key) :
    Parallel L v (Ingestion.withSample st s hfresh) (Ingestion.withSample st' s' hfresh') := by
  refine ⟨Table.ext_rows ?_, h.gpus, h.nodes, h.points, h.edges, h.rollups⟩
  have hrow : sampleRow s' = sampleRow s := by
    rw [hs.rest]
    rfl
  change sampleRow s' :: st'.samples.rows = sampleRow s :: st.samples.rows
  rw [hrow, h.samples]

theorem carriedOver (h : Parallel L v tx tx') (hL : Compatible L v) (hs : SameReport L s s')
    (hn : SameLive node node') : List.Forall₂ (SameCard L) (Ingestion.carriedOver tx node s)
      (Ingestion.carriedOver tx' node' s') := by
  have hstatus : s'.gpuStatus = s.gpuStatus := by rw [hs.rest]
  have hat : s'.atMs = s.atMs := by rw [hs.rest]
  have hid : s'.nodeID = s.nodeID := by rw [hs.rest]
  unfold Ingestion.carriedOver
  rw [hstatus]
  split_ifs
  · exact .nil
  · refine List.rel_map (R := SameCard fun _ _ => True) ?_ (List.rel_filter ?_ hn.cards)
    · intro g g' hg
      have hsame : queryFailed s' g' = queryFailed s g := by
        rw [hg.rest]
        unfold queryFailed
        rw [hstatus]
      rw [hsame]
      exact ⟨rfl, hL.empty⟩
    · intro g g' hg
      have huuid : g'.uuid = g.uuid := by rw [hg.rest]
      have hcarries : Carries tx s g ↔ Carries tx' s' g' := by
        unfold Carries
        rw [huuid, hs.lists_iff, h.gpus, hat, hid]
      simp only [decide_eq_true_eq]
      exact hcarries

theorem sameReport_full (h : Parallel L v st st') (hL : Compatible L v) (hs : SameReport L s s')
    (hn : SameLive node node') (hr : Recorded now st s node full tx t)
    (hr' : Recorded now' st' s' node' full' tx' t') : SameReport L full full' := by
  constructor
  · have hrest : ∀ cards cards' : List GPU, ({ s' with gpus := cards' } : Snapshot) =
        { ({ s with gpus := cards } : Snapshot) with gpus := cards' } := by
      intro cards cards'
      rw [hs.rest]
    rw [hr.full_eq, hr'.full_eq]
    exact hrest _ _
  · rw [hr.gpus_full, hr'.gpus_full]
    exact List.rel_append hs.cards ((h.withSample hs hr.fresh hr'.fresh).carriedOver hL hs hn)

theorem sameLive_refreshedRow (hs : SameReport L full full') (hn : SameLive node node') :
    SameLive (refreshedRow now full node) (refreshedRow now' full' node') := by
  have hat : full'.atMs = full.atMs := by rw [hs.rest]
  have hstatus : full'.gpuStatus = full.gpuStatus := by rw [hs.rest]
  constructor
  · rw [refreshedRow_sampleAt, refreshedRow_sampleAt, hn.sampleAt, hat]
  · rw [refreshedRow_snapshot, refreshedRow_snapshot, hn.sampleAt, hat]
    split_ifs
    · apply List.rel_append (hs.cards.imp (fun _ _ hg => hg.imp (fun _ _ _ => trivial)))
      refine List.rel_map (R := SameCard fun _ _ => True) ?_ ?_
      · intro g g' hg
        refine ⟨?_, trivial⟩
        rw [hg.rest]
        rfl
      · unfold missingGPUs
        rw [hstatus]
        split_ifs
        · refine List.rel_filter (fun {g g'} hg => ?_) hn.cards
          have huuid : g'.uuid = g.uuid := by rw [hg.rest]
          simp only [decide_eq_true_eq, huuid, hs.lists_iff]
        · exact .nil
    · exact hn.cards

theorem recorded (h : Parallel L v st st') (hL : Compatible L v) (hs : SameReport L s s')
    (hr : Recorded now st s node full tx t) (hr' : Recorded now' st' s' node' full' tx' t') :
    Parallel L v t t' := by
  have hid : s'.nodeID = s.nodeID := by rw [hs.rest]
  have hn : SameLive node node' := by
    have hrel := h.nodes s.nodeID
    have hregistered := hr'.registered
    rw [hid] at hregistered
    rw [hr.registered, hregistered] at hrel
    cases hrel with
    | some hn => exact hn
  have hfull := h.sameReport_full hL hs hn hr hr'
  have hstart := h.withSample hs hr.fresh hr'.fresh
  have hcards : Parallel L v tx tx' := by
    refine foldlM_parallel (Parallel L v) ?_ (forall₂_mem hfull.cards) hstart hr.observed
      hr'.observed
    rintro g g' u u' w w' ⟨hg, hmem, hmem'⟩ hpar ho ho'
    refine hpar.observe hL hfull.rest hg ?_ ho ho'
    rw [hr.pointOf_full, hr'.pointOf_full]
    exact ⟨now, now', s, s', g, g', hr.accepted, hr'.accepted, hr.observable hmem,
      hr'.observable hmem', hs.rest, hg, rfl, rfl⟩
  obtain ⟨hpoints, hedges, hsamples, hrollups, hgpus⟩ := hr.measurements
  obtain ⟨hpoints', hedges', hsamples', hrollups', hgpus'⟩ := hr'.measurements
  constructor
  · rw [hsamples, hsamples']
    exact hcards.samples
  · rw [hgpus, hgpus']
    exact hcards.gpus
  · intro n
    rw [hr.nodes_find?, hr'.nodes_find?, hid]
    split_ifs
    · exact .some (sameLive_refreshedRow hfull hn)
    · exact h.nodes n
  · rw [hpoints, hpoints']
    exact hcards.points
  · rw [hedges, hedges']
    exact hcards.edges
  · rw [hrollups, hrollups']
    exact hcards.rollups

end Reports

theorem storable_iff (h : Parallel L v st st') (hs : SameReport L s s')
    (hv : validate now s = .ok ()) (hv' : validate now' s' = .ok ()) :
    Storable now st s ↔ Storable now' st' s' := by
  have hid : s'.nodeID = s.nodeID := by rw [hs.rest]
  have hrow : sampleRow s' = sampleRow s := by
    rw [hs.rest]
    rfl
  have hreg : st.nodes.HasKey s.nodeID ↔ st'.nodes.HasKey s.nodeID := by
    have hrel := h.nodes s.nodeID
    rw [← not_iff_not, ← Table.find?_eq_none_iff, ← Table.find?_eq_none_iff]
    generalize st.nodes.find? s.nodeID = o at hrel
    generalize st'.nodes.find? s.nodeID = o' at hrel
    cases hrel <;> simp
  unfold Storable
  rw [hv, hv', hrow, h.samples, hid, hreg]

end Parallel

/-- Two runs of valid reports that differ in their process lists. -/
structure Differ (L : List Process → List Process → Prop) (calls calls' : List (ℤ × Snapshot)) :
    Prop where
  reports : List.Forall₂ (fun call call' => SameReport L call.2 call'.2) calls calls'
  valid : ∀ call ∈ calls, validate call.1 call.2 = .ok ()
  valid' : ∀ call ∈ calls', validate call.1 call.2 = .ok ()

theorem parallel_freshStore (L : List Process → List Process → Prop) (v : Aspect)
    (nodes : Table NodeRow NodeRow.id) : Parallel L v (freshStore nodes) (freshStore nodes) := by
  refine ⟨rfl, rfl, fun n => ?_, Table.aligned_empty, Table.aligned_empty, fun k _ => rfl⟩
  cases hf : (freshStore nodes).nodes.find? n with
  | none => exact .none
  | some row =>
    obtain ⟨r, -, rfl⟩ := List.mem_map.mp (Table.find?_eq_some.mp hf).1
    exact .some ⟨rfl, .nil⟩

theorem parallel_runIngest {calls calls' : List (ℤ × Snapshot)} (nodes : Table NodeRow NodeRow.id)
    (hL : Compatible L v) (h : Differ L calls calls') :
    Parallel L v (runIngest (freshStore nodes) calls) (runIngest (freshStore nodes) calls') := by
  let I : Store → Store → Prop := fun st st' =>
    Parallel L v st st' ∧ (∀ n, Consistent st n) ∧ ∀ n, Consistent st' n
  let R : ℤ × Snapshot → ℤ × Snapshot → Prop := fun call call' => SameReport L call.2 call'.2 ∧
    validate call.1 call.2 = .ok () ∧ validate call'.1 call'.2 = .ok ()
  have hcalls : List.Forall₂ R calls calls' := (forall₂_mem h.reports).imp
    (fun call call' hc => ⟨hc.1, h.valid _ hc.2.1, h.valid' _ hc.2.2⟩)
  have hstart : I (freshStore nodes) (freshStore nodes) :=
    ⟨parallel_freshStore L v nodes, consistent_freshStore nodes, consistent_freshStore nodes⟩
  refine (List.rel_foldl (P := I) (R := R) ?_ hstart hcalls).1
  rintro st st' ⟨hpar, hc, hc'⟩ ⟨now, s⟩ ⟨now', s'⟩ ⟨hs, hv, hv'⟩
  refine ⟨?_, fun n => (hc n).ingested now s, fun n => (hc' n).ingested now' s'⟩
  have hiff := hpar.storable_iff hs hv hv'
  by_cases hst : Storable now st s
  · obtain ⟨node, full, tx, hr⟩ := recorded_of_storable (hc _) hst
    obtain ⟨node', full', tx', hr'⟩ := recorded_of_storable (hc' _) (hiff.mp hst)
    exact hpar.recorded hL hs hr hr'
  · have hst' : ¬ Storable now' st' s' := fun hst' => hst (hiff.mpr hst')
    simp only [ingested_of_not_storable hst, ingested_of_not_storable hst']
    exact hpar

end CardScope.Attribution
