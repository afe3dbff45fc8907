import CardScope.Arrival.Following

/-! # Batches of reports

A batch is a set of reports of one node that reach the hub in some order. What its cards add to
the rollups is the sum over their timelines, in which only the gaps depend on the order.
-/

namespace CardScope.Arrival
open Library Model Hub Ingestion Integration

/-- The reports arrive in this order, each within the limits at its clock reading. -/
structure Arrives (reports : List Snapshot) (calls : List (ℤ × Snapshot)) : Prop where
  order : (calls.map Prod.snd).Perm reports
  valid : ∀ call ∈ calls, validate call.1 call.2 = .ok ()

/-- Any two orders of arrival at a freshly registered node end in the same numbers. -/
def OrderIndependent (nodes : Table NodeRow NodeRow.id) (reports : List Snapshot) : Prop :=
  ∀ calls calls', Arrives reports calls → Arrives reports calls' → ∀ k,
    (runIngest (freshStore nodes) calls).rollup k = (runIngest (freshStore nodes) calls').rollup k

/-- Reports of one registered node with distinct identities and sampling times, each of which
passes the limits at some clock reading. -/
structure Batch (nodes : Table NodeRow NodeRow.id) (n : String) (reports : List Snapshot) : Prop where
  registered : nodes.HasKey n
  node : ∀ s ∈ reports, s.nodeID = n
  accepted : ∀ s ∈ reports, ∃ now, validate now s = .ok ()
  identities : (reports.map Snapshot.identity).Nodup
  times : (reports.map Snapshot.atMs).Nodup

section Sums

variable {nodes : Table NodeRow NodeRow.id} {n u b : String} {reports gaps : List Snapshot}
  {calls : List (ℤ × Snapshot)} {st : Store} {q : RollupKey → Bool}

theorem Follows.timeline (hf : Follows n reports st) (hi : Integrated st n)
    (htimes : (reports.map Snapshot.atMs).Nodup) (u b : String) :
    (st.timeline n u b).map visible = ((chronological Snapshot.atMs reports).filter
      (fun s => Seen u b (CardState.run u {} reports).gaps s)).map (view u) := by
  have hleft : Ascending Point.atMs ((st.timeline n u b).map visible) :=
    (chronological_ascending (hi.times u b)).map visible_atMs
  have hright : Ascending Point.atMs (((chronological Snapshot.atMs reports).filter
      (fun s => Seen u b (CardState.run u {} reports).gaps s)).map (view u)) :=
    Ascending.map (List.Pairwise.filter _ (chronological_ascending htimes)) (view_atMs u)
  apply hleft.ext hright
  intro p
  have hspec := hf.timelines u b p
  simp only [List.mem_map, List.mem_filter, decide_eq_true_eq, Store.timeline, mem_chronological,
    and_assoc] at hspec ⊢
  exact hspec

theorem Follows.rollupSum (hf : Follows n reports st) (hi : Integrated st n)
    (htimes : (reports.map Snapshot.atMs).Nodup) (hq : ∀ k, q k → k.node = n ∧ k.uuid = u) :
    st.rollupSum q = ∑ b ∈ (reports.map Snapshot.bootID).toFinset,
      bootIntegral n u q reports (CardState.run u {} reports).gaps b := by
  have hboots : ∀ b, b ∉ (reports.map Snapshot.bootID).toFinset → st.lanePoints n u b = [] := by
    intro b hb
    refine List.eq_nil_iff_forall_not_mem.mpr (fun x hx => hb ?_)
    obtain ⟨s, hs, hseen, -⟩ := (hf.timelines u b (visible x)).mp ⟨x, hx, rfl⟩
    exact List.mem_toFinset.mpr (List.mem_map.mpr ⟨s, hs, hseen.1⟩)
  rw [hi.sums u q hq _ hboots]
  apply Finset.sum_congr rfl
  intro b _
  have hvisible : st.laneIntegral n u b q = chainSum (fun x y => total q (contributions n u x y))
      ((st.timeline n u b).map visible) := by
    rw [chainSum_map, Store.laneIntegral]
    exact chainSum_congr (fun x y _ => (total_visible q).symm)
  rw [hvisible, hf.timeline hi htimes, chainSum_map, bootIntegral]
  rfl

theorem Follows.distinctTimes (hf : Follows n reports st)
    (htimes : (reports.map Snapshot.atMs).Nodup) : DistinctTimes st := by
  intro r hr r' hr' _ _ hat
  obtain ⟨s, hs, rfl⟩ := (hf.samples r).mp hr
  obtain ⟨s', hs', rfl⟩ := (hf.samples r').mp hr'
  rw [List.inj_on_of_nodup_map htimes hs hs' hat]

/-- After any arrival of a batch, the rollups of a card sum up the timelines of its reports, with
the gaps that this order left. -/
theorem Batch.rollupSum (h : Batch nodes n reports) (ha : Arrives reports calls)
    (hq : ∀ k, q k → k.node = n ∧ k.uuid = u) :
    (runIngest (freshStore nodes) calls).rollupSum q =
      ∑ b ∈ (reports.map Snapshot.bootID).toFinset,
        bootIntegral n u q reports (CardState.run u {} (calls.map Prod.snd)).gaps b := by
  have hnode : ∀ call ∈ calls, call.2.nodeID = n := fun call hcall =>
    h.node _ (ha.order.mem_iff.mp (List.mem_map_of_mem hcall))
  have htimes : ((calls.map Prod.snd).map Snapshot.atMs).Nodup :=
    (ha.order.map Snapshot.atMs).nodup_iff.mpr h.times
  obtain ⟨hf, -⟩ := follows_runIngest nodes h.registered calls hnode ha.valid
    ((ha.order.map Snapshot.identity).nodup_iff.mpr h.identities)
  have hi := (integrated_runIngest nodes calls (hf.distinctTimes htimes)).1 n
  rw [hf.rollupSum hi htimes hq, List.toFinset_eq_of_perm _ _ (ha.order.map Snapshot.bootID)]
  exact Finset.sum_congr rfl (fun b _ => bootIntegral_perm ha.order htimes _ b)

theorem Batch.rollup_of_other (h : Batch nodes n reports) (ha : Arrives reports calls)
    {k : RollupKey} (hk : k.node ≠ n) : (runIngest (freshStore nodes) calls).rollup k = 0 := by
  have hnode : ∀ call ∈ calls, call.2.nodeID = n := fun call hcall =>
    h.node _ (ha.order.mem_iff.mp (List.mem_map_of_mem hcall))
  obtain ⟨hf, -⟩ := follows_runIngest nodes h.registered calls hnode ha.valid
    ((ha.order.map Snapshot.identity).nodup_iff.mpr h.identities)
  have hi := (integrated_runIngest nodes calls (hf.distinctTimes
    ((ha.order.map Snapshot.atMs).nodup_iff.mpr h.times))).1 k.node
  rw [← Store.rollupSum_eq, hi.sums k.uuid _ (by simp +contextual) ∅
    (fun b _ => hf.others k.node hk k.uuid b), Finset.sum_empty]

end Sums

end CardScope.Arrival
