import CardScope.Accounting.Instants
import CardScope.CardHours.Ranges
import CardScope.CardHours.Search

/-! # What the statistics say

The hours of a row are the milliseconds of the range in which the state in force says so: that the
card is in use, or that the user is on it. No user who was on a card in the range is left out.
-/

namespace CardScope.Accounting
open Library Model Hub Ingestion Integration CardHours

def inUse (p : Point) : Bool := p.processValid && p.occupied

def listed (uid : String) (p : Point) : Bool := p.processValid && decide (p.users.HasKey uid)

def attributable (p : Point) : Bool := p.processValid && p.userValid

/-- What a row of the statistics reads off the states of its card in the range. -/
structure Reads (st : Store) (range : Range) (s : StatRow) : Prop where
  user : s.userID ≠ "" → s.occupied =
    st.msWhere s.node s.uuid range.fromMs range.toMs (listed s.userID) / 3600000
  occupied : s.userID = "" → s.occupied =
    st.msWhere s.node s.uuid range.fromMs range.toMs inUse / 3600000
  weighted : s.userID = "" → s.weighted =
    st.accumulated s.node s.uuid range.fromMs range.toMs
      (fun p => p.util.elim 0 (fun util => util / 100)) / 3600000
  occupancyValid : s.userID = "" → s.occupancyValid =
    st.msWhere s.node s.uuid range.fromMs range.toMs Point.processValid / 1000
  utilValid : s.userID = "" → s.utilValid =
    st.msWhere s.node s.uuid range.fromMs range.toMs (fun p => p.util.isSome) / 1000
  attributionValid : s.userID = "" → s.attributionValid =
    st.msWhere s.node s.uuid range.fromMs range.toMs attributable / 1000

theorem sum_ite_filter {ι M : Type*} [AddCommMonoid M] (l : List ι) (p : ι → Bool) (f : ι → M) :
    (l.map (fun i => if p i then f i else 0)).sum = ((l.filter p).map f).sum := by
  induction l with
  | nil => rfl
  | cons i l ih => cases h : p i <;> simp [h, ih]

theorem sum_userRollups (st : Store) (range : Range) (g : GPURow) (uid : String) :
    ((userRollups st range g uid).map RollupRow.measures).sum =
      st.rollupSum (rowsWithin g.node g.uuid uid range.res range.fromMs range.toMs) := by
  rw [Store.rollupSum, Table.sum, sum_ite_filter, userRollups, joined, List.filter_filter]
  congr 2
  apply List.filter_congr
  intro r _
  rw [Bool.eq_iff_iff]
  simp only [rowsWithin, Integration.rowsOf, Bool.and_eq_true, decide_eq_true_eq]
  tauto

/-- A query has one of the two resolutions, and whole buckets. -/
theorem queryRange_aligned (now : ℤ) (r : Request) :
    ((queryRange now r).res = 60000 ∨ (queryRange now r).res = 3600000) ∧
      (queryRange now r).res ∣ (queryRange now r).fromMs ∧
      (queryRange now r).res ∣ (queryRange now r).toMs := by
  refine ⟨?_, dvd_mul_left _ _, dvd_mul_left _ _⟩
  have hres : (queryRange now r).res = 3600000 ∨ (queryRange now r).res = 60000 :=
    ite_eq_or_eq _ _ _
  exact hres.symm

section Sums

variable {st : Store} {node uuid uid : String} {res lo hi : ℤ}

/-- The rollups of the card and the user add up the states of the window. -/
def SumsUp (st : Store) (node uuid : String) (res lo hi : ℤ) : Prop := ∀ uid,
  st.rollupSum (rowsWithin node uuid uid res lo hi) =
    st.accumulated node uuid lo hi (fun p => (1 / 1000 : ℚ) • rate p uid)

theorem SumsUp.measure (h : SumsUp st node uuid res lo hi) (φ : Measures →ₗ[ℚ] ℚ) (uid : String)
    {ρ : Point → ℚ} (hρ : ∀ boot t, ∀ p ∈ st.stateAt node uuid boot t, φ (rate p uid) = ρ p) :
    φ (st.rollupSum (rowsWithin node uuid uid res lo hi)) =
      st.accumulated node uuid lo hi ρ / 1000 := by
  have hscaled : ∀ boot t, ∀ p ∈ st.stateAt node uuid boot t,
      φ ((1 / 1000 : ℚ) • rate p uid) = (AddMonoidHom.mulLeft (1 / 1000 : ℚ)) (ρ p) := by
    intro boot t p hp
    simp [hρ boot t p hp]
  rw [h uid, ← LinearMap.toAddMonoidHom_coe, map_accumulated]
  simp only [LinearMap.toAddMonoidHom_coe]
  rw [accumulated_congr st node uuid lo hi hscaled, ← map_accumulated]
  simp only [AddMonoidHom.coe_mulLeft]
  ring

/-- A measure that is one per second where a test holds counts the milliseconds of the test. -/
theorem SumsUp.count (h : SumsUp st node uuid res lo hi) (φ : Measures →ₗ[ℚ] ℚ) (uid : String)
    (test : Point → Bool)
    (htest : ∀ boot t, ∀ p ∈ st.stateAt node uuid boot t,
      φ (rate p uid) = if test p then 1 else 0) :
    φ (st.rollupSum (rowsWithin node uuid uid res lo hi)) =
      st.msWhere node uuid lo hi test / 1000 := by
  rw [h.measure φ uid htest, accumulated_ite, mul_one]

theorem rate_listed (p : Point) (huid : uid ≠ "") :
    (rate p uid).occupied = if listed uid p then 1 else 0 := by
  have hlisted : listed uid p = true ↔ p.processValid = true ∧ p.users.HasKey uid := by
    simp [listed]
  rw [rate_user p huid]
  by_cases h : p.processValid ∧ p.users.HasKey uid
  · rw [if_pos h, if_pos (hlisted.mpr h)]
    rfl
  · rw [if_neg h, if_neg (mt hlisted.mp h)]
    rfl

theorem SumsUp.listed (h : SumsUp st node uuid res lo hi) (huid : uid ≠ "") :
    (st.rollupSum (rowsWithin node uuid uid res lo hi)).occupied =
      st.msWhere node uuid lo hi (listed uid) / 1000 :=
  h.count ⟨⟨Measures.occupied, fun _ _ => rfl⟩, fun _ _ => rfl⟩ uid (Accounting.listed uid)
    (fun _ _ p _ => rate_listed p huid)

end Sums

section Rows

variable {st : Store} {range : Range} {now : ℤ} {g : GPURow} {uid : String}

theorem hours_eq (n : ℕ) : max 0 ((n : ℚ) / 1000 / 3600) = n / 3600000 := by
  rw [max_eq_right (by positivity), div_div]
  norm_num

theorem statRow_fields (now : ℤ) (range : Range) (g : GPURow) (uid : String) {m : Measures}
    (hm : st.rollupSum (rowsWithin g.node g.uuid uid range.res range.fromMs range.toMs) = m)
    {s : StatRow} (hs : s = statRow now range g uid (userRollups st range g uid)) :
    s.occupied = max 0 (m.occupied / 3600) ∧ s.weighted = max 0 (m.weighted / 3600) ∧
      s.occupancyValid = m.occupancyValid ∧ s.utilValid = m.utilValid ∧
      s.attributionValid = m.attributionValid := by
  rw [hs, ← hm, ← sum_userRollups]
  exact ⟨rfl, rfl, rfl, rfl, rfl⟩

theorem accumulated_util_nonneg (st : Store) (node uuid : String) (lo hi : ℤ)
    (hsound : ∀ boot t, ∀ p ∈ st.stateAt node uuid boot t, Sound p) :
    0 ≤ st.accumulated node uuid lo hi (fun p => p.util.elim 0 (fun util => util / 100)) := by
  apply List.sum_nonneg
  intro x hx
  obtain ⟨boot, -, rfl⟩ := List.mem_map.mp hx
  apply Finset.sum_nonneg
  intro t _
  cases hp : st.stateAt node uuid boot t with
  | none => exact le_rfl
  | some p =>
    rw [Option.elim_some]
    cases hu : p.util with
    | none => exact le_rfl
    | some u => exact div_nonneg ((hsound boot t p hp).util_bound u hu).1 (by norm_num)

theorem reads_statRow (hsums : SumsUp st g.node g.uuid range.res range.fromMs range.toMs)
    (hsound : ∀ boot t, ∀ p ∈ st.stateAt g.node g.uuid boot t, Sound p) (uid : String) :
    Reads st range (statRow now range g uid (userRollups st range g uid)) := by
  obtain ⟨hoccupied, hweighted, hoccupancy, hutil, hattribution⟩ :=
    statRow_fields now range g uid rfl rfl
  have hcard : ∀ boot t, ∀ p ∈ st.stateAt g.node g.uuid boot t, rate p "" = cardMeasures p 1 :=
    fun boot t p hp => rate_card (hsound boot t p hp)
  have hcount : ∀ (φ : Measures →ₗ[ℚ] ℚ) (test : Point → Bool),
      (∀ p, φ (cardMeasures p 1) = if test p then 1 else 0) →
      φ (st.rollupSum (rowsWithin g.node g.uuid "" range.res range.fromMs range.toMs)) =
        st.msWhere g.node g.uuid range.fromMs range.toMs test / 1000 := by
    intro φ test htest
    apply hsums.count φ "" test
    intro boot t p hp
    rw [hcard boot t p hp, htest]
  constructor
  · intro huid
    have h : (st.rollupSum
        (rowsWithin g.node g.uuid uid range.res range.fromMs range.toMs)).occupied =
          st.msWhere g.node g.uuid range.fromMs range.toMs (listed uid) / 1000 :=
      hsums.listed huid
    rw [hoccupied, h, hours_eq]
    rfl
  · intro huid
    obtain rfl : uid = "" := huid
    have h := hcount ⟨⟨Measures.occupied, fun _ _ => rfl⟩, fun _ _ => rfl⟩ inUse (fun _ => rfl)
    change (st.rollupSum _).occupied = _ at h
    rw [hoccupied, h, hours_eq]
    rfl
  · intro huid
    obtain rfl : uid = "" := huid
    have h := hsums.measure ⟨⟨Measures.weighted, fun _ _ => rfl⟩, fun _ _ => rfl⟩ ""
      (ρ := fun p => p.util.elim 0 (fun util => util / 100))
      (by
        intro boot t p hp
        rw [hcard boot t p hp]
        change p.util.elim 0 (fun util => 1 * util / 100) = _
        simp only [one_mul])
    change (st.rollupSum _).weighted = _ at h
    have hnonneg := accumulated_util_nonneg st g.node g.uuid range.fromMs range.toMs hsound
    rw [hweighted, h, div_div, max_eq_right (div_nonneg hnonneg (by norm_num))]
    norm_num
    rfl
  · intro huid
    obtain rfl : uid = "" := huid
    rw [hoccupancy]
    exact hcount ⟨⟨Measures.occupancyValid, fun _ _ => rfl⟩, fun _ _ => rfl⟩ Point.processValid
      (fun _ => rfl)
  · intro huid
    obtain rfl : uid = "" := huid
    rw [hutil]
    exact hcount ⟨⟨Measures.utilValid, fun _ _ => rfl⟩, fun _ _ => rfl⟩ (fun p => p.util.isSome)
      (fun _ => rfl)
  · intro huid
    obtain rfl : uid = "" := huid
    rw [hattribution]
    exact hcount ⟨⟨Measures.attributionValid, fun _ _ => rfl⟩, fun _ _ => rfl⟩ attributable
      (fun _ => rfl)

/-- A user without rollups was never on the card. -/
theorem msWhere_eq_zero (hsums : SumsUp st g.node g.uuid range.res range.fromMs range.toMs)
    (huid : uid ≠ "") (hnone : userRollups st range g uid = []) :
    st.msWhere g.node g.uuid range.fromMs range.toMs (listed uid) = 0 := by
  have hcount := hsums.listed huid
  rw [← sum_userRollups, hnone] at hcount
  have hzero : (0 : ℚ) = st.msWhere g.node g.uuid range.fromMs range.toMs (listed uid) / 1000 :=
    hcount
  have hcast : (st.msWhere g.node g.uuid range.fromMs range.toMs (listed uid) : ℚ) = 0 := by
    linarith
  exact_mod_cast hcast

end Rows

section Runs

variable (nodes : Table NodeRow NodeRow.id) (calls : List (ℤ × Snapshot))

/-- Every row of the statistics reads its numbers off the states in force, and every user who was
on a selected card in the range has a row. -/
theorem stats_eq_instants (hdistinct : DistinctTimes (runIngest (freshStore nodes) calls)) (now : ℤ)
    (r : Request) (hdate : Dated calls (queryRange now r).res (queryRange now r).fromMs)
    (node model : String) :
    (∀ s ∈ statRows now (runIngest (freshStore nodes) calls) (queryRange now r) node model,
      Reads (runIngest (freshStore nodes) calls) (queryRange now r) s) ∧
    ∀ g ∈ (runIngest (freshStore nodes) calls).gpus, Selected (queryRange now r) node model g →
      ∀ uid, uid ≠ "" →
        0 < (runIngest (freshStore nodes) calls).msWhere g.node g.uuid (queryRange now r).fromMs
          (queryRange now r).toMs (listed uid) →
        ∃ s ∈ statRows now (runIngest (freshStore nodes) calls) (queryRange now r) node model,
          s.node = g.node ∧ s.uuid = g.uuid ∧ s.userID = uid := by
  obtain ⟨hres, hlo, hhi⟩ := queryRange_aligned now r
  have hsums : ∀ n u, SumsUp (runIngest (freshStore nodes) calls) n u (queryRange now r).res
      (queryRange now r).fromMs (queryRange now r).toMs :=
    fun n u uid => rollupSum_rowsWithin nodes hdistinct hres hlo hhi hdate uid
  have hsound : ∀ n u boot t, ∀ p ∈ (runIngest (freshStore nodes) calls).stateAt n u boot t,
      Sound p := fun n u boot t p hp =>
    (stateAt_drawn (hdate.drawn nodes) ((integrated_runIngest nodes calls hdistinct).1 n) hp).1
  generalize runIngest (freshStore nodes) calls = st at hsums hsound ⊢
  constructor
  · intro s hs
    simp only [statRows, List.mem_flatMap, gpuStats, List.mem_map] at hs
    obtain ⟨g, -, uid, -, rfl⟩ := hs
    exact reads_statRow (hsums g.node g.uuid) (hsound g.node g.uuid) uid
  · intro g hg hselected uid huid hpos
    have hsome : userRollups st (queryRange now r) g uid ≠ [] := fun hnone =>
      hpos.ne' (msWhere_eq_zero (hsums g.node g.uuid) huid hnone)
    have hrow : statRow now (queryRange now r) g uid (userRollups st (queryRange now r) g uid) ∈
        userRows (statRows now st (queryRange now r) node model) :=
      mem_userRows_statRows.mpr ⟨g, hg, hselected, uid, huid, hsome, rfl⟩
    exact ⟨_, (mem_userRows.mp hrow).1, rfl, rfl, rfl⟩

end Runs

/-- The request for the statistics of the last day. -/
def dayRequest : Request where
  method := "GET"
  path := "/api/v1/stats"

theorem stats_eq_instants_late :
    DistinctTimes (runIngest (freshStore (Hub.node "n")) lateCalls) ∧
    ∀ s ∈ statRows 1700000071000 (runIngest (freshStore (Hub.node "n")) lateCalls)
      (queryRange 1700000071000 dayRequest) "" "",
      Reads (runIngest (freshStore (Hub.node "n")) lateCalls) (queryRange 1700000071000 dayRequest)
        s :=
  have hdistinct : DistinctTimes (runIngest (freshStore (Hub.node "n")) lateCalls) := by
    decide +kernel
  ⟨hdistinct, (stats_eq_instants (Hub.node "n") lateCalls hdistinct 1700000071000 dayRequest
    (.inl (by decide +kernel)) "" "").1⟩

end CardScope.Accounting
