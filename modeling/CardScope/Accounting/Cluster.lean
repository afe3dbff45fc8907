import CardScope.Accounting.Trends

/-! # What the trend of the cluster says

A point of the cluster is the mean over the milliseconds of a quarter of an hour in which the
utilization of a card was measured, of all cards of registered nodes together.
-/

namespace CardScope.Accounting
open Library Model Hub Ingestion Integration Trends

section Keys

variable {ρ κ M : Type*} [DecidableEq κ] [AddCommMonoid M]

/-- A sum over rows is the sum over the keys of a list, when the rows of other keys add nothing. -/
theorem sum_by_key (rows : List ρ) {keys : List κ} (hnodup : keys.Nodup) (key : ρ → κ) (f : ρ → M)
    (hzero : ∀ r ∈ rows, key r ∉ keys → f r = 0) :
    (rows.map f).sum = (keys.map (fun k => ((rows.filter (fun r => key r = k)).map f).sum)).sum := by
  induction rows with
  | nil => simp
  | cons r rows ih =>
    rw [List.forall_mem_cons] at hzero
    have hsplit : ∀ k, (((r :: rows).filter (fun r => key r = k)).map f).sum =
        (if k = key r then f r else 0) + ((rows.filter (fun r => key r = k)).map f).sum := by
      intro k
      by_cases hk : key r = k
      · simp [hk]
      · simp [hk, Ne.symm hk]
    have hone : (keys.map (fun k => if k = key r then f r else 0)).sum = f r := by
      rw [← List.sum_toFinset _ hnodup, Finset.sum_ite_eq']
      split_ifs with hmem
      · rfl
      · exact (hzero.1 (fun h => hmem (List.mem_toFinset.mpr h))).symm
    rw [List.map_cons, List.sum_cons, ih hzero.2]
    simp only [hsplit]
    rw [List.sum_map_add, hone]

end Keys

def clusterCards (st : Store) : List GPURow := st.gpus.rows.filter (fun g => st.nodes.HasKey g.node)

/-- A point of the cluster averages the states of all cards over its part of the range. -/
def ClusterAverages (st : Store) (range : Range) (p : ClusterPoint) : Prop :=
  p.util = mean
    ((clusterCards st).map (fun g => st.accumulated g.node g.uuid p.atMs
      (min (p.atMs + 900000) range.toMs) utilOf)).sum
    ((clusterCards st).map (fun g => st.msWhere g.node g.uuid p.atMs
      (min (p.atMs + 900000) range.toMs) utilKnown)).sum

section Rows

variable {st : Store} {range : Range} {slot : ℤ}

theorem clusterRows_card (hres : range.res = 900000) (hslot : 900000 ∣ slot)
    (hfrom : 0 ≤ range.fromMs) (hin : range.fromMs ≤ slot) {g : GPURow}
    (hg : st.nodes.HasKey g.node) :
    (clusterRows st range slot).filter (fun r => (r.key.node, r.key.uuid) = g.key) =
      st.rollups.rows.filter (fun r => rowsWithin g.node g.uuid "" 60000 slot
        (min (slot + 900000) range.toMs) r.key) := by
  rw [clusterRows, List.filter_filter]
  apply List.filter_congr
  intro r _
  rw [Bool.eq_iff_iff]
  simp only [hres, align_eq_iff hslot, InSlot, Bool.and_eq_true, decide_eq_true_eq, rowsWithin,
    Integration.rowsOf, GPURow.key, Prod.mk.injEq]
  constructor
  · rintro ⟨⟨hnode, huuid⟩, hrow, huser, hge, hlt, -, halign⟩
    rw [if_pos (by omega)] at halign
    exact ⟨hnode, huuid, huser, hrow, halign.1, by omega⟩
  · rintro ⟨hnode, huuid, huser, hrow, hge, hlt⟩
    refine ⟨⟨hnode, huuid⟩, hrow, huser, by omega, by omega, hnode ▸ hg, ?_⟩
    rw [if_pos (by omega)]
    omega

theorem sum_clusterRows (φ : Measures →ₗ[ℚ] ℚ) (hres : range.res = 900000)
    (hslot : 900000 ∣ slot) (hfrom : 0 ≤ range.fromMs) (hin : range.fromMs ≤ slot)
    (hzero : ∀ r ∈ clusterRows st range slot,
      (r.key.node, r.key.uuid) ∉ st.gpus.rows.map GPURow.key → φ r.measures = 0) :
    ((clusterRows st range slot).map (fun r => φ r.measures)).sum =
      ((clusterCards st).map (fun g => φ (st.rollupSum (rowsWithin g.node g.uuid "" 60000 slot
        (min (slot + 900000) range.toMs))))).sum := by
  rw [sum_by_key _ st.gpus.nodup (fun r : RollupRow => (r.key.node, r.key.uuid)) _ hzero,
    List.map_map, clusterCards, ← sum_ite_filter]
  congr 1
  apply List.map_congr_left
  intro g _
  rw [Function.comp_apply]
  split_ifs with hg
  · rw [clusterRows_card hres hslot hfrom hin (of_decide_eq_true hg), Store.rollupSum, Table.sum,
      sum_ite_filter, map_list_sum, List.map_map]
    rfl
  · have hnone : (clusterRows st range slot).filter
        (fun r => (r.key.node, r.key.uuid) = g.key) = [] := by
      apply List.filter_eq_nil_iff.mpr
      intro r hr hkey
      have hnode : st.nodes.HasKey r.key.node := by
        rw [clusterRows, List.mem_filter] at hr
        exact (of_decide_eq_true hr.2).2.2.2.2.1
      have hsame := of_decide_eq_true hkey
      simp only [GPURow.key, Prod.mk.injEq] at hsame
      exact hg (decide_eq_true (hsame.1 ▸ hnode))
    rw [hnone]
    rfl

theorem boots_eq_nil {node uuid : String} (hc : Consistent st node)
    (hunseen : (node, uuid) ∉ st.gpus.rows.map GPURow.key) : st.boots node uuid = [] := by
  have hnone : st.points.rows.filter (fun r => r.node = node ∧ r.uuid = uuid) = [] := by
    apply List.filter_eq_nil_iff.mpr
    intro r hr hkey
    obtain ⟨hnode, huuid⟩ := of_decide_eq_true hkey
    obtain ⟨g, hg, hk, -⟩ := hc.point_gpu r hr hnode
    rw [huuid] at hk
    exact hunseen (List.mem_map.mpr ⟨g, hg, hk⟩)
  rw [Store.boots, hnone]
  rfl

theorem CardSums.eq_zero {node uuid : String} {lo hi : ℤ} {m : Measures}
    (h : CardSums st node uuid lo hi m) (hboots : st.boots node uuid = []) :
    m.weighted = 0 ∧ m.utilValid = 0 := by
  constructor
  · rw [h.weighted, Store.accumulated, hboots]
    simp
  · rw [h.utilValid, Store.msWhere, Store.accumulated, hboots]
    simp

end Rows

section Sums

variable {ι : Type*} (l : List ι) (f : ι → ℚ)

theorem sum_div (c : ℚ) : (l.map (fun i => f i / c)).sum = (l.map f).sum / c := by
  simp only [div_eq_mul_inv]
  rw [List.sum_map_mul_right]

theorem sum_natCast_div (n : ι → ℕ) (c : ℚ) :
    (l.map (fun i => (n i : ℚ) / c)).sum = ((l.map n).sum : ℕ) / c := by
  rw [sum_div, Nat.cast_list_sum, List.map_map]
  rfl

end Sums

/-- The sums of all cards over a slot give the point of the slot. -/
theorem clusterAverages {st : Store} {range : Range} {slot : ℤ} (hres : range.res = 900000)
    (hslot : 900000 ∣ slot) (hfrom : 0 ≤ range.fromMs) (hin : range.fromMs ≤ slot)
    (hcards : ∀ g ∈ clusterCards st, CardSums st g.node g.uuid slot (min (slot + 900000) range.toMs)
      (st.rollupSum (rowsWithin g.node g.uuid "" 60000 slot (min (slot + 900000) range.toMs))))
    (hzero : ∀ r ∈ clusterRows st range slot,
      (r.key.node, r.key.uuid) ∉ st.gpus.rows.map GPURow.key →
        r.measures.weighted = 0 ∧ r.measures.utilValid = 0) :
    ClusterAverages st range (clusterPoint st range slot) := by
  have hweighted := sum_clusterRows ⟨⟨Measures.weighted, fun _ _ => rfl⟩, fun _ _ => rfl⟩ hres hslot
    hfrom hin (fun r hr hnone => (hzero r hr hnone).1)
  have hvalid := sum_clusterRows ⟨⟨Measures.utilValid, fun _ _ => rfl⟩, fun _ _ => rfl⟩ hres hslot
    hfrom hin (fun r hr hnone => (hzero r hr hnone).2)
  have hmapWeighted := List.map_congr_left (fun g hg => (hcards g hg).weighted)
  have hmapValid := List.map_congr_left (fun g hg => (hcards g hg).utilValid)
  change ((clusterRows st range slot).map (fun r => r.measures.weighted)).sum =
    ((clusterCards st).map (fun g => (st.rollupSum _).weighted)).sum at hweighted
  change ((clusterRows st range slot).map (fun r => r.measures.utilValid)).sum =
    ((clusterCards st).map (fun g => (st.rollupSum _).utilValid)).sum at hvalid
  rw [hmapWeighted, sum_div] at hweighted
  rw [hmapValid, sum_natCast_div] at hvalid
  unfold ClusterAverages clusterPoint
  dsimp only
  rw [hweighted, hvalid]
  exact mean_of_percent _ _

/-- Every point of the cluster trend is the mean of the states in force, over all registered cards
and the milliseconds of its slot. -/
theorem clusterHistory_averages (nodes : Table NodeRow NodeRow.id) {calls : List (ℤ × Snapshot)}
    (hdistinct : DistinctTimes (runIngest (freshStore nodes) calls)) (now : ℤ)
    (hnow : 25 * 3600000 ≤ now) :
    ∀ p ∈ (clusterHistory now (runIngest (freshStore nodes) calls)).2,
      ClusterAverages (runIngest (freshStore nodes) calls) (clusterRange now) p := by
  intro p hp
  obtain ⟨slot, hmem, rfl⟩ := List.mem_map.mp hp
  obtain ⟨hin, hbelow, hstep⟩ := (mem_steps (by norm_num [clusterRange])).mp hmem
  have hfrom : 60000 ≤ (clusterRange now).fromMs := by
    have hstop : now < align 60000 now + 60000 := by
      rw [CardHours.align_of_nonneg 60000 (by omega)]
      omega
    change 60000 ≤ align (15 * 60000) (align 60000 now - 24 * 3600000)
    rw [CardHours.align_of_nonneg _ (by omega)]
    omega
  have hslot : 900000 ∣ slot := by
    have hgrid : 900000 ∣ (clusterRange now).fromMs := dvd_align 900000 _
    exact (dvd_sub_left hgrid).mp hstep
  have hstop : 60000 ∣ min (slot + 900000) (clusterRange now).toMs := by
    have hto : 60000 ∣ (clusterRange now).toMs := dvd_align 60000 now
    omega
  have hdate : Dated calls 60000 slot := .inl (by omega)
  have hi := (integrated_runIngest nodes calls hdistinct).1
  apply clusterAverages rfl hslot (by omega) hin
  · intro g _
    have hsums : SumsUp (runIngest (freshStore nodes) calls) g.node g.uuid 60000 slot
        (min (slot + 900000) (clusterRange now).toMs) :=
      fun uid => rollupSum_rowsWithin nodes hdistinct (.inl rfl) (by omega) hstop hdate uid
    apply hsums.card
    intro boot t q hq
    exact (stateAt_drawn (hdate.drawn nodes) (hi g.node) hq).1
  · intro r hr hunseen
    rw [clusterRows, List.mem_filter] at hr
    obtain ⟨hmem, hrow⟩ := hr
    obtain ⟨hrow, huser, hge, -⟩ := of_decide_eq_true hrow
    have haligned : Aligned r.key := by
      rw [← run_map_ingest] at hmem
      exact aligned_run nodes _ hmem
    have hkey : r.key = ⟨r.key.node, r.key.uuid, "", 60000, r.key.bucket⟩ := by
      rw [← hrow, ← huser]
    have hdvd := haligned.2
    rw [hrow] at hdvd
    have hsums := cardSums_rollup nodes hdistinct r.key.node r.key.uuid (.inl rfl)
      (.inl (hfrom.trans hge) : Dated calls 60000 r.key.bucket) le_rfl hdvd
    rw [← hkey, rollup_of_mem hmem] at hsums
    exact hsums.eq_zero (boots_eq_nil ((integrated_runIngest nodes calls hdistinct).2.1 _) hunseen)

theorem clusterHistory_averages_late :
    DistinctTimes (runIngest (freshStore (Hub.node "n")) lateCalls) ∧
    ∀ p ∈ (clusterHistory 1700000071000 (runIngest (freshStore (Hub.node "n")) lateCalls)).2,
      ClusterAverages (runIngest (freshStore (Hub.node "n")) lateCalls)
        (clusterRange 1700000071000) p :=
  have hdistinct : DistinctTimes (runIngest (freshStore (Hub.node "n")) lateCalls) := by
    decide +kernel
  ⟨hdistinct, clusterHistory_averages (Hub.node "n") hdistinct 1700000071000 (by norm_num)⟩

end CardScope.Accounting
