import CardScope.Library.Means
import CardScope.Trends.History

/-! # The trend of the cluster

A slot of a quarter of an hour shows the mean over the minutes of all cards, weighted by the measured
seconds. The slots do not depend on what is stored, so a slot without minutes is explicit.
-/

namespace CardScope.Trends
open Library Hub Ingestion Integration

/-- The minute counts in the slot. Times are rounded towards the epoch, so a minute before it
counts in the slot that begins next. -/
def InSlot (slot bucket : ℤ) : Prop :=
  if 0 ≤ bucket then slot ≤ bucket ∧ bucket < slot + 900000
  else slot - 900000 < bucket ∧ bucket ≤ slot

instance (slot bucket : ℤ) : Decidable (InSlot slot bucket) :=
  inferInstanceAs (Decidable (if 0 ≤ bucket then _ else _))

/-- The whole-card minutes of existing nodes in the slot and the range that have measured seconds. -/
def slotRows (st : Store) (range : Range) (slot : ℤ) : List RollupRow :=
  st.rollups.rows.filter (fun r => r.key.res = 60000 ∧ r.key.user = "" ∧ st.nodes.HasKey r.key.node ∧
    range.fromMs ≤ r.key.bucket ∧ r.key.bucket < range.toMs ∧ InSlot slot r.key.bucket ∧
    0 < r.measures.utilValid)

def minuteUtil (r : RollupRow) : ℚ := (r.point 60000).util.getD 0

section Slots

variable {st : Store} {range : Range} {slot : ℤ}

theorem align_eq_iff (hslot : 900000 ∣ slot) (bucket : ℤ) :
    align 900000 bucket = slot ↔ InSlot slot bucket := by
  unfold align InSlot
  split_ifs with hepoch
  · rw [Int.tdiv_eq_ediv_of_nonneg hepoch]
    omega
  · obtain ⟨n, rfl⟩ : ∃ n, bucket = -n := ⟨-bucket, (neg_neg bucket).symm⟩
    rw [Int.neg_tdiv, Int.tdiv_eq_ediv_of_nonneg (by omega)]
    omega

theorem dvd_align (res t : ℤ) : res ∣ align res t := dvd_mul_left res _

theorem clusterHistory_slots (now : ℤ) (st : Store) : (clusterHistory now st).2.map ClusterPoint.atMs =
    steps (clusterRange now).fromMs (clusterRange now).toMs 900000 := by
  rw [clusterHistory, List.map_map]
  exact List.map_id _

theorem pairwise_steps {width : ℤ} (hwidth : 0 < width) (start stop : ℤ) :
    (steps start stop width).Pairwise (· < ·) :=
  pairwise_of_follows ((isChain_steps start stop width).imp (fun _ _ => follows_of_step hwidth))

theorem minuteUtil_eq {r : RollupRow} (hpos : 0 < r.measures.utilValid) :
    (r.point 60000).util = some (minuteUtil r) ∧
      r.measures.utilValid * minuteUtil r = r.measures.weighted * 100 := by
  have hutil : (r.point 60000).util = some (r.measures.weighted / r.measures.utilValid * 100) :=
    if_pos hpos
  rw [minuteUtil, hutil, Option.getD_some]
  exact ⟨rfl, by field_simp⟩

theorem mem_slotRows {r : RollupRow} : r ∈ slotRows st range slot ↔
    r ∈ st.rollups ∧ r.key.res = 60000 ∧ r.key.user = "" ∧ st.nodes.HasKey r.key.node ∧
      range.fromMs ≤ r.key.bucket ∧ r.key.bucket < range.toMs ∧ InSlot slot r.key.bucket ∧
      0 < r.measures.utilValid := by
  rw [slotRows, List.mem_filter, decide_eq_true_eq, Table.mem_def]

theorem utilValid_pos {r : RollupRow} (hr : r ∈ slotRows st range slot) :
    0 < r.measures.utilValid := by
  obtain ⟨-, -, -, -, -, -, -, hpos⟩ := mem_slotRows.mp hr
  exact hpos

theorem sum_utilValid_pos (hsome : slotRows st range slot ≠ []) :
    0 < ((slotRows st range slot).map (fun r => r.measures.utilValid)).sum := by
  apply List.sum_pos
  · intro v hv
    obtain ⟨r, hr, rfl⟩ := List.mem_map.mp hv
    exact utilValid_pos hr
  · exact fun h => hsome (List.map_eq_nil_iff.mp h)

theorem slotRows_eq (hres : range.res = 900000) (hslot : 900000 ∣ slot) : slotRows st range slot =
    (clusterRows st range slot).filter (fun r => 0 < r.measures.utilValid) := by
  rw [slotRows, clusterRows, List.filter_filter]
  apply List.filter_congr
  intro r _
  rw [Bool.eq_iff_iff]
  simp only [hres, align_eq_iff hslot, decide_eq_true_eq, Bool.and_eq_true, ge_iff_le]
  tauto

theorem clusterPoint_util (hvalid : ∀ r ∈ st.rollups, r.measures.Valid) (hres : range.res = 900000)
    (hslot : 900000 ∣ slot) : (clusterPoint st range slot).util =
      if slotRows st range slot = [] then none
      else some (weightedMean (fun r => r.measures.utilValid) minuteUtil (slotRows st range slot)) := by
  have hrows : ∀ r ∈ clusterRows st range slot, r.measures.Valid :=
    fun r hr => hvalid r (List.mem_filter.mp hr).1
  have hzero : ∀ r ∈ clusterRows st range slot,
      decide (0 < r.measures.utilValid) = false → r.measures.utilValid = 0 := fun r hr hpos =>
    le_antisymm (not_lt.mp (of_decide_eq_false hpos)) (hrows r hr).utilValid_nonneg
  have hsumValid : ((slotRows st range slot).map (fun r => r.measures.utilValid)).sum =
      ((clusterRows st range slot).map (fun r => r.measures.utilValid)).sum := by
    rw [slotRows_eq hres hslot, sum_map_filter hzero]
  have hsumWeighted : ((slotRows st range slot).map (fun r => r.measures.weighted)).sum =
      ((clusterRows st range slot).map (fun r => r.measures.weighted)).sum := by
    rw [slotRows_eq hres hslot, sum_map_filter]
    intro r hr hpos
    have hle := (hrows r hr).weighted_le
    rw [hzero r hr hpos] at hle
    exact le_antisymm hle (hrows r hr).weighted_nonneg
  have hproducts : ((slotRows st range slot).map
      (fun r => r.measures.utilValid * minuteUtil r)).sum =
        ((slotRows st range slot).map (fun r => r.measures.weighted)).sum * 100 := by
    rw [← List.sum_map_mul_right]
    congr 1
    apply List.map_congr_left
    intro r hr
    exact (minuteUtil_eq (utilValid_pos hr)).2
  rw [clusterPoint, ← hsumValid, ← hsumWeighted]
  dsimp only
  by_cases hnone : slotRows st range slot = []
  · rw [hnone]
    rfl
  · rw [if_pos (sum_utilValid_pos hnone), if_neg hnone, weightedMean, hproducts]
    congr 1
    ring

/-- The mean over the minutes that count lies between the least and the greatest of them and is a
percentage. -/
theorem slotMean_between (hvalid : ∀ r ∈ st.rollups, r.measures.Valid)
    (hsome : slotRows st range slot ≠ []) :
    (∃ low ∈ slotRows st range slot, ∃ high ∈ slotRows st range slot,
      (∀ r ∈ slotRows st range slot, minuteUtil low ≤ minuteUtil r ∧ minuteUtil r ≤ minuteUtil high) ∧
      minuteUtil low ≤ weightedMean (fun r => r.measures.utilValid) minuteUtil (slotRows st range slot) ∧
      weightedMean (fun r => r.measures.utilValid) minuteUtil (slotRows st range slot) ≤
        minuteUtil high) ∧
    0 ≤ weightedMean (fun r => r.measures.utilValid) minuteUtil (slotRows st range slot) ∧
      weightedMean (fun r => r.measures.utilValid) minuteUtil (slotRows st range slot) ≤ 100 := by
  have hweights : ∀ r ∈ slotRows st range slot, 0 < r.measures.utilValid := fun r => utilValid_pos
  have hpos := sum_utilValid_pos hsome
  obtain ⟨low, hlow, high, hhigh, -, -, hall, hmean⟩ :=
    weightedMean_between minuteUtil (fun r hr => (hweights r hr).le) hpos
  have hpercent : ∀ r ∈ slotRows st range slot, 0 ≤ minuteUtil r ∧ minuteUtil r ≤ 100 := by
    intro r hr
    obtain ⟨-, hbounds⟩ := point_util (hvalid r (mem_slotRows.mp hr).1) 60000
    exact (hbounds _ (minuteUtil_eq (hweights r hr)).1).2
  constructor
  · exact ⟨low, hlow, high, hhigh, fun r hr => hall r hr (hweights r hr), hmean⟩
  · exact weightedMean_mem (fun r hr => (hweights r hr).le) hpos (fun r hr _ => hpercent r hr)

end Slots

/-- Every slot of the cluster trend is shown once: as the mean of its minutes weighted by their
measured seconds, or without a value when none counts. -/
theorem clusterHistory_means (nodes left : Table NodeRow NodeRow.id) (events : List Event) (now : ℤ) :
    let st := { run (freshStore nodes) events with nodes := left }
    let range := (clusterHistory now st).1
    let points := (clusterHistory now st).2
    (points.map ClusterPoint.atMs).Pairwise (· < ·) ∧
    (∀ t, t ∈ points.map ClusterPoint.atMs ↔ range.fromMs ≤ t ∧ t < range.toMs ∧ 900000 ∣ t) ∧
    ∀ p ∈ points,
      (p.util = none ↔ slotRows st range p.atMs = []) ∧
      ∀ u, p.util = some u →
        u = weightedMean (fun r => r.measures.utilValid) minuteUtil (slotRows st range p.atMs) ∧
        (∀ r ∈ slotRows st range p.atMs, (r.point 60000).util = some (minuteUtil r)) ∧
        (∃ low ∈ slotRows st range p.atMs, ∃ high ∈ slotRows st range p.atMs,
          (∀ r ∈ slotRows st range p.atMs,
            minuteUtil low ≤ minuteUtil r ∧ minuteUtil r ≤ minuteUtil high) ∧
          minuteUtil low ≤ u ∧ u ≤ minuteUtil high) ∧
        0 ≤ u ∧ u ≤ 100 := by
  intro st range points
  have hfrom : 900000 ∣ range.fromMs := dvd_align _ _
  have hvalid : ∀ r ∈ st.rollups, r.measures.Valid := fun r hr => valid_rollups nodes events hr
  have hslots : points.map ClusterPoint.atMs = steps range.fromMs range.toMs 900000 :=
    clusterHistory_slots now st
  have hmem : ∀ t, t ∈ points.map ClusterPoint.atMs ↔
      range.fromMs ≤ t ∧ t < range.toMs ∧ 900000 ∣ t := by
    intro t
    rw [hslots, mem_steps (by norm_num), dvd_sub_left hfrom]
  refine ⟨hslots ▸ pairwise_steps (by norm_num) _ _, hmem, ?_⟩
  intro p hp
  have hslot : 900000 ∣ p.atMs := ((hmem _).mp (List.mem_map_of_mem hp)).2.2
  have hpoint : p = clusterPoint st range p.atMs := by
    obtain ⟨t, -, rfl⟩ := List.mem_map.mp hp
    rfl
  have hutil : (clusterPoint st range p.atMs).util = _ := clusterPoint_util hvalid rfl hslot
  rw [← hpoint] at hutil
  rw [hutil]
  constructor
  · split_ifs with hnone
    · exact iff_of_true rfl hnone
    · exact iff_of_false not_false hnone
  · intro u hu
    split_ifs at hu with hnone
    obtain rfl := Option.some_inj.mp hu
    obtain ⟨hbetween, hpercent⟩ := slotMean_between hvalid hnone
    exact ⟨rfl, fun r hr => (minuteUtil_eq (utilValid_pos hr)).1, hbetween, hpercent⟩

/-- The minutes of the last quarter of an hour before the epoch are not in its slot. -/
theorem clusterHistory_before_epoch : ¬ ∀ (nodes : Table NodeRow NodeRow.id) (events : List Event)
    (now : ℤ), ∀ p ∈ (clusterHistory now (run (freshStore nodes) events)).2,
      p.util = none ↔ ¬ ∃ r ∈ (run (freshStore nodes) events).rollups.rows,
        r.key.res = 60000 ∧ r.key.user = "" ∧
          (run (freshStore nodes) events).nodes.HasKey r.key.node ∧
          (clusterRange now).fromMs ≤ r.key.bucket ∧ r.key.bucket < (clusterRange now).toMs ∧
          p.atMs ≤ r.key.bucket ∧ r.key.bucket < p.atMs + 900000 ∧ 0 < r.measures.utilValid := by
  intro h
  have hpoint := h (node "n") earlyReports 0 ⟨-900000, none⟩ (by decide +kernel)
  exact hpoint.mp rfl (by decide +kernel)

end CardScope.Trends
