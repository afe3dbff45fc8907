import CardScope.Accounting.Stats
import CardScope.Trends.Cluster
import CardScope.Ingestion.Intake

/-! # What the trends say

A point of a trend is the mean of the states in force over the milliseconds of its bucket in which
the value was measured, of one card or of all cards. It has no value exactly when there is no such
millisecond.
-/

namespace CardScope.Accounting
open Library Model Hub Ingestion Integration Trends

def utilOf (p : Point) : ℚ := p.util.getD 0

def memoryOf (p : Point) : ℚ := p.memory.getD 0

def utilKnown (p : Point) : Bool := p.util.isSome

def memoryKnown (p : Point) : Bool := p.memory.isSome

def mean (total : ℚ) (n : ℕ) : Option ℚ := if n = 0 then none else some (total / n)

/-- A point of a trend averages the states of a card over its bucket. -/
structure Averages (st : Store) (node uuid : String) (res : ℤ) (p : HistoryPoint) : Prop where
  util : p.util = mean (st.accumulated node uuid p.atMs (p.atMs + res) utilOf)
    (st.msWhere node uuid p.atMs (p.atMs + res) utilKnown)
  memory : p.memory = mean (st.accumulated node uuid p.atMs (p.atMs + res) memoryOf)
    (st.msWhere node uuid p.atMs (p.atMs + res) memoryKnown)
  coverage : p.coverage = (st.msWhere node uuid p.atMs (p.atMs + res) utilKnown : ℚ) / res

section Measures

variable {st : Store} {node uuid : String} {res lo hi : ℤ}

/-- The four sums behind the means of a whole card. -/
structure CardSums (st : Store) (node uuid : String) (lo hi : ℤ) (m : Measures) : Prop where
  weighted : m.weighted = st.accumulated node uuid lo hi utilOf / 100000
  utilValid : m.utilValid = st.msWhere node uuid lo hi utilKnown / 1000
  memorySum : m.memorySum = st.accumulated node uuid lo hi memoryOf / 1000
  memoryValid : m.memoryValid = st.msWhere node uuid lo hi memoryKnown / 1000

theorem SumsUp.card (h : SumsUp st node uuid res lo hi)
    (hsound : ∀ boot t, ∀ p ∈ st.stateAt node uuid boot t, Sound p) :
    CardSums st node uuid lo hi (st.rollupSum (rowsWithin node uuid "" res lo hi)) := by
  have hcard : ∀ boot t, ∀ p ∈ st.stateAt node uuid boot t, rate p "" = cardMeasures p 1 :=
    fun boot t p hp => rate_card (hsound boot t p hp)
  constructor
  · have hmeasure := h.measure
      ⟨⟨fun m => 100 * m.weighted, fun a b => by simp [mul_add]⟩, fun c a => by simp; ring⟩ ""
      (ρ := utilOf)
      (by
        intro boot t p hp
        rw [hcard boot t p hp]
        change 100 * p.util.elim 0 (fun util => 1 * util / 100) = p.util.getD 0
        cases p.util with
        | none => simp
        | some u =>
          simp only [Option.elim_some, Option.getD_some]
          ring)
    change 100 * (st.rollupSum _).weighted = _ at hmeasure
    linarith
  · exact h.count ⟨⟨Measures.utilValid, fun _ _ => rfl⟩, fun _ _ => rfl⟩ "" utilKnown
      (fun boot t p hp => by rw [hcard boot t p hp]; rfl)
  · have hmeasure := h.measure ⟨⟨Measures.memorySum, fun _ _ => rfl⟩, fun _ _ => rfl⟩ ""
      (ρ := memoryOf)
      (by
        intro boot t p hp
        rw [hcard boot t p hp]
        change p.memory.elim 0 (fun memory => 1 * memory) = p.memory.getD 0
        cases p.memory <;> simp)
    exact hmeasure
  · exact h.count ⟨⟨Measures.memoryValid, fun _ _ => rfl⟩, fun _ _ => rfl⟩ "" memoryKnown
      (fun boot t p hp => by rw [hcard boot t p hp]; rfl)

theorem natCast_div_pos (n : ℕ) : (n : ℚ) / 1000 > 0 ↔ n ≠ 0 := by
  rw [gt_iff_lt, div_pos_iff_of_pos_right (by norm_num), Nat.cast_pos, Nat.pos_iff_ne_zero]

/-- The mean that is shown is that of the milliseconds. -/
theorem mean_of_seconds (total : ℚ) (n : ℕ) :
    (if (n : ℚ) / 1000 > 0 then some (total / 1000 / (n / 1000)) else none) = mean total n := by
  rw [if_congr (natCast_div_pos n) rfl rfl, mean, div_div_div_cancel_right₀ (by norm_num)]
  by_cases h : n = 0 <;> simp [h]

theorem mean_of_percent (total : ℚ) (n : ℕ) :
    (if (n : ℚ) / 1000 > 0 then some (total / 100000 / (n / 1000) * 100) else none) =
      mean total n := by
  have hscaled : total / 100000 / ((n : ℚ) / 1000) * 100 = total / 1000 / (n / 1000) := by ring
  rw [hscaled, mean_of_seconds]

theorem averages_point {r : RollupRow}
    (h : CardSums st node uuid r.key.bucket (r.key.bucket + res) r.measures) :
    Averages st node uuid res (r.point res) := by
  constructor
  · rw [RollupRow.point, h.weighted, h.utilValid]
    exact mean_of_percent _ _
  · rw [RollupRow.point, h.memorySum, h.memoryValid]
    exact mean_of_seconds _ _
  · rw [RollupRow.point, h.utilValid]
    exact div_div_div_cancel_right₀ (by norm_num) _ _

end Measures

section History

variable {st : Store} {node uuid : String} {range : Range}

theorem eq_of_dvd_window {res bucket b : ℤ} (hres : 0 < res) (hbucket : res ∣ bucket)
    (hb : res ∣ b) (hlo : bucket ≤ b) (hhi : b < bucket + res) : b = bucket := by
  obtain ⟨c, rfl⟩ := hbucket
  obtain ⟨d, rfl⟩ := hb
  have hle := (mul_le_mul_iff_right₀ hres).mp hlo
  have hlt : d < c + 1 := by
    apply (mul_lt_mul_iff_right₀ hres).mp
    rwa [mul_add, mul_one]
  obtain rfl : d = c := by omega
  rfl

theorem rollupSum_bucket (haligned : ∀ r ∈ st.rollups, Aligned r.key) {res bucket : ℤ}
    (hres : 0 < res) (hbucket : res ∣ bucket) (user : String) :
    st.rollupSum (rowsWithin node uuid user res bucket (bucket + res)) =
      st.rollup ⟨node, uuid, user, res, bucket⟩ := by
  rw [← Store.rollupSum_eq]
  apply Table.sum_congr
  intro r hr
  have hiff : rowsWithin node uuid user res bucket (bucket + res) r.key =
      decide (r.key = ⟨node, uuid, user, res, bucket⟩) := by
    rw [Bool.eq_iff_iff]
    obtain ⟨-, hdvd⟩ := haligned r hr
    cases hk : r.key with
    | mk n u v rs b =>
      rw [hk] at hdvd
      simp only [rowsWithin, Integration.rowsOf, decide_eq_true_eq, RollupKey.mk.injEq]
      constructor
      · rintro ⟨rfl, rfl, rfl, rfl, hlo, hhi⟩
        exact ⟨rfl, rfl, rfl, rfl, eq_of_dvd_window hres hbucket hdvd hlo hhi⟩
      · rintro ⟨rfl, rfl, rfl, rfl, rfl⟩
        exact ⟨rfl, rfl, rfl, rfl, le_rfl, by omega⟩
  rw [hiff]

/-- A bucket without a row has no measured millisecond. -/
theorem averages_gap {p : HistoryPoint} {res : ℤ}
    (h : CardSums st node uuid p.atMs (p.atMs + res) 0) (hutil : p.util = none)
    (hmemory : p.memory = none) (hcoverage : p.coverage = 0) :
    Averages st node uuid res p := by
  have hu : st.msWhere node uuid p.atMs (p.atMs + res) utilKnown = 0 := by
    by_contra hne
    exact absurd h.utilValid ((natCast_div_pos _).mpr hne).ne
  have hm : st.msWhere node uuid p.atMs (p.atMs + res) memoryKnown = 0 := by
    by_contra hne
    exact absurd h.memoryValid ((natCast_div_pos _).mpr hne).ne
  constructor
  · rw [hutil, hu]
    rfl
  · rw [hmemory, hm]
    rfl
  · rw [hcoverage, hu]
    simp

/-- A filled point lies between two rows on their grid, and has no values. -/
structure Gap (res previous : ℤ) (rows : List RollupRow) (p : HistoryPoint) : Prop where
  value : p = ⟨p.atMs, none, none, 0⟩
  grid : res ∣ p.atMs
  after : 0 ≤ previous ∧ previous < p.atMs ∨ ∃ r ∈ rows, r.key.bucket < p.atMs
  before : ∃ r ∈ rows, p.atMs < r.key.bucket

theorem gap_fillGaps {res previous : ℤ} {rows : List RollupRow} (hres : 0 < res)
    (hprevious : 0 ≤ previous → res ∣ previous) (hdvd : ∀ r ∈ rows, res ∣ r.key.bucket)
    {p : HistoryPoint} (hp : p ∈ fillGaps res previous rows) :
    (∃ r ∈ rows, p = r.point res) ∨ Gap res previous rows p := by
  induction rows generalizing previous with
  | nil => cases hp
  | cons r rest ih =>
    rw [List.forall_mem_cons] at hdvd
    rw [fillGaps, List.mem_append, List.mem_cons] at hp
    rcases hp with hgap | rfl | hlater
    · right
      obtain ⟨t, ht, rfl⟩ := List.mem_map.mp hgap
      split_ifs at ht with hstarted
      · obtain ⟨hlo, hhi, hstep⟩ := (mem_steps hres).mp ht
        have hgrid := dvd_add hstep (dvd_add (hprevious hstarted) (dvd_refl res))
        rw [sub_add_cancel] at hgrid
        exact ⟨rfl, hgrid, .inl ⟨hstarted, by dsimp only; omega⟩, r, List.mem_cons_self, hhi⟩
      · cases ht
    · exact .inl ⟨r, List.mem_cons_self, rfl⟩
    · rcases ih (fun _ => hdvd.1) hdvd.2 hlater with ⟨r', hr', h⟩ | h
      · exact .inl ⟨r', List.mem_cons_of_mem r hr', h⟩
      · obtain ⟨r', hr', hlt⟩ := h.before
        refine .inr ⟨h.value, h.grid, .inr ?_, r', List.mem_cons_of_mem r hr', hlt⟩
        rcases h.after with ⟨-, hafter⟩ | ⟨r'', hr'', hafter⟩
        · exact ⟨r, List.mem_cons_self, hafter⟩
        · exact ⟨r'', List.mem_cons_of_mem r hr'', hafter⟩

theorem averages_history (haligned : ∀ r ∈ st.rollups, Aligned r.key) (hres : 0 < range.res)
    (hsums : ∀ bucket, range.res ∣ bucket → range.fromMs ≤ bucket →
      CardSums st node uuid bucket (bucket + range.res)
        (st.rollup ⟨node, uuid, "", range.res, bucket⟩)) {p : HistoryPoint}
    (hp : p ∈ fillGaps range.res (-1) (historyRows st node uuid range)) :
    Averages st node uuid range.res p := by
  have hdvd : ∀ row ∈ historyRows st node uuid range, range.res ∣ row.key.bucket := by
    intro row hrow
    obtain ⟨hmem, hkey, -⟩ := mem_historyRows.mp hrow
    have hrow := (haligned row hmem).2
    rwa [congrArg RollupKey.res hkey] at hrow
  have hpoint : ∀ row ∈ historyRows st node uuid range,
      Averages st node uuid range.res (row.point range.res) := by
    intro row hrow
    obtain ⟨hmem, hkey, hfrom, -⟩ := mem_historyRows.mp hrow
    apply averages_point
    have hrollup := hsums row.key.bucket (hdvd row hrow) hfrom
    rwa [← hkey, rollup_of_mem hmem] at hrollup
  rcases mem_fillGaps hres (historyRows_sorted st node uuid range) hdvd hp with
    ⟨row, hrow, rfl⟩ | ⟨-, hmissing⟩
  · exact hpoint row hrow
  rcases gap_fillGaps hres (by omega) hdvd hp with ⟨row, hrow, rfl⟩ | hgap
  · exact hpoint row hrow
  -- the range has no row of this bucket, so there is none at all
  obtain ⟨r₁, hr₁, hbefore⟩ : ∃ r ∈ historyRows st node uuid range, r.key.bucket < p.atMs := by
    rcases hgap.after with ⟨h, -⟩ | h
    · omega
    · exact h
  obtain ⟨r₂, hr₂, hafter⟩ := hgap.before
  have hfrom := (mem_historyRows.mp hr₁).2.2.1
  have hto := (mem_historyRows.mp hr₂).2.2.2
  have hnone : st.rollup ⟨node, uuid, "", range.res, p.atMs⟩ = 0 := by
    unfold Store.rollup
    cases hf : st.rollups.find? ⟨node, uuid, "", range.res, p.atMs⟩ with
    | none => rfl
    | some row =>
      obtain ⟨hmem, hkey⟩ := Table.find?_eq_some.mp hf
      have hbucket : row.key.bucket = p.atMs := by rw [hkey]
      have hrow : row ∈ historyRows st node uuid range :=
        mem_historyRows.mpr ⟨hmem, by rw [hkey], by omega, by omega⟩
      exact absurd hbucket (hmissing row hrow)
  have hzero := hsums p.atMs hgap.grid (by omega)
  rw [hnone] at hzero
  have hvalue := hgap.value
  exact averages_gap hzero (by rw [hvalue]) (by rw [hvalue]) (by rw [hvalue])

theorem exists_history {bucket : ℤ} (hfrom : range.fromMs ≤ bucket) (hto : bucket < range.toMs)
    (hsums : CardSums st node uuid bucket (bucket + range.res)
      (st.rollup ⟨node, uuid, "", range.res, bucket⟩))
    (hpos : 0 < st.msWhere node uuid bucket (bucket + range.res) utilKnown) :
    ∃ p ∈ fillGaps range.res (-1) (historyRows st node uuid range), p.atMs = bucket := by
  cases hf : st.rollups.find? ⟨node, uuid, "", range.res, bucket⟩ with
  | none =>
    have hzero := hsums.utilValid
    rw [Store.rollup, hf] at hzero
    exact absurd hzero ((natCast_div_pos _).mpr hpos.ne').ne
  | some row =>
    obtain ⟨hmem, hkey⟩ := Table.find?_eq_some.mp hf
    have hbucket : row.key.bucket = bucket := by rw [hkey]
    have hrow : row ∈ historyRows st node uuid range :=
      mem_historyRows.mpr ⟨hmem, by rw [hkey], by omega, by omega⟩
    exact ⟨row.point range.res, point_mem_fillGaps hrow, hbucket⟩

end History

section Runs

variable (nodes : Table NodeRow NodeRow.id) {calls : List (ℤ × Snapshot)}

/-- The rollup of a bucket of a whole card is the sum of its states. -/
theorem cardSums_rollup (hdistinct : DistinctTimes (runIngest (freshStore nodes) calls))
    (node uuid : String) {res lo bucket : ℤ} (hres : res = 60000 ∨ res = 3600000)
    (hdate : Dated calls res lo) (hlo : lo ≤ bucket) (hbucket : res ∣ bucket) :
    CardSums (runIngest (freshStore nodes) calls) node uuid bucket (bucket + res)
      ((runIngest (freshStore nodes) calls).rollup ⟨node, uuid, "", res, bucket⟩) := by
  have hdate' : Dated calls res bucket := hdate.imp_left (fun h => h.trans hlo)
  have haligned : ∀ r ∈ (runIngest (freshStore nodes) calls).rollups, Aligned r.key := by
    intro r hr
    rw [← run_map_ingest] at hr
    exact aligned_run nodes _ hr
  have hsums : SumsUp (runIngest (freshStore nodes) calls) node uuid res bucket (bucket + res) :=
    fun uid => rollupSum_rowsWithin nodes hdistinct hres hbucket (dvd_add hbucket dvd_rfl) hdate' uid
  rw [← rollupSum_bucket haligned (by omega) hbucket]
  apply hsums.card
  intro boot t p hp
  exact (stateAt_drawn (hdate.drawn nodes)
    ((integrated_runIngest nodes calls hdistinct).1 node) hp).1

/-- Every point of the trend of a card is the mean of the states in force over its bucket, and every
bucket of the range with a measured millisecond has a point. -/
theorem history_averages (hdistinct : DistinctTimes (runIngest (freshStore nodes) calls)) (now : ℤ)
    (r : Request) (hdate : Dated calls (queryRange now r).res (queryRange now r).fromMs) :
    (∀ p ∈ (history now (runIngest (freshStore nodes) calls) r).2,
      Averages (runIngest (freshStore nodes) calls) (r.query "node") (r.query "gpu")
        (queryRange now r).res p) ∧
    ∀ bucket, (queryRange now r).res ∣ bucket → (queryRange now r).fromMs ≤ bucket →
      bucket < (queryRange now r).toMs →
      0 < (runIngest (freshStore nodes) calls).msWhere (r.query "node") (r.query "gpu") bucket
        (bucket + (queryRange now r).res) utilKnown →
      ∃ p ∈ (history now (runIngest (freshStore nodes) calls) r).2, p.atMs = bucket := by
  obtain ⟨hres, -, -⟩ := queryRange_aligned now r
  have hsums := fun bucket (hdvd : (queryRange now r).res ∣ bucket)
      (hfrom : (queryRange now r).fromMs ≤ bucket) =>
    cardSums_rollup nodes hdistinct (r.query "node") (r.query "gpu") hres hdate hfrom hdvd
  have haligned : ∀ row ∈ (runIngest (freshStore nodes) calls).rollups, Aligned row.key := by
    intro row hrow
    rw [← run_map_ingest] at hrow
    exact aligned_run nodes _ hrow
  constructor
  · intro p hp
    exact averages_history haligned (queryRange_pos now r) hsums hp
  · intro bucket hdvd hfrom hto hpos
    exact exists_history hfrom hto (hsums bucket hdvd hfrom) hpos

end Runs

theorem history_averages_late :
    DistinctTimes (runIngest (freshStore (Hub.node "n")) lateCalls) ∧
    ∀ p ∈ (history 1700000071000 (runIngest (freshStore (Hub.node "n")) lateCalls) trendRequest).2,
      Averages (runIngest (freshStore (Hub.node "n")) lateCalls) "n" "GPU-test" 60000 p :=
  have hdistinct : DistinctTimes (runIngest (freshStore (Hub.node "n")) lateCalls) := by
    decide +kernel
  ⟨hdistinct, (history_averages (Hub.node "n") hdistinct 1700000071000 trendRequest
    (.inl (by decide +kernel))).1⟩

end CardScope.Accounting
