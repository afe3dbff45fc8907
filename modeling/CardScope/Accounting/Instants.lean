import CardScope.Library.Instants
import CardScope.Integration.Timeline

/-! # What the rollups mean

A timeline tells the state of a card at every millisecond: the last point, when its neighbour is
close enough. The rollups of whole buckets are the sum of these states over the milliseconds of
the buckets, however the reports arrived and were linked.
-/

namespace CardScope.Hub.Store
open Library Integration

/-- The state that a client start knows of a card at a time. -/
def stateAt (st : Store) (node uuid boot : String) (t : ℤ) : Option Point :=
  inForce Point.atMs Bridged t (st.timeline node uuid boot)

/-- The sum of `rate` over the milliseconds of a window whose state is known. -/
noncomputable def accumulated {M : Type*} [AddCommMonoid M] (st : Store) (node uuid : String)
    (lo hi : ℤ)
    (rate : Point → M) : M :=
  ((st.boots node uuid).map (fun boot =>
    ∑ t ∈ Finset.Ico lo hi, (st.stateAt node uuid boot t).elim 0 rate)).sum

/-- The number of milliseconds of a window whose state satisfies `φ`. -/
noncomputable def msWhere (st : Store) (node uuid : String) (lo hi : ℤ) (φ : Point → Bool) : ℕ :=
  st.accumulated node uuid lo hi (fun p => if φ p then 1 else 0)

end CardScope.Hub.Store

namespace CardScope.Accounting
open Library Model Hub Ingestion Integration

section Windows

variable {node uuid user : String} {a b : Point} {res lo hi : ℤ}

/-- The buckets that begin in a window. -/
abbrev rowsWithin (node uuid user : String) (res lo hi : ℤ) : RollupKey → Bool :=
  rowsOf node uuid user res (fun bucket => lo ≤ bucket ∧ bucket < hi)

/-- An interval adds its rate over the time that it shares with the window. -/
theorem total_rowsWithin (h : Bridged a b) (hres : res = 60000 ∨ res = 3600000) (hlo : res ∣ lo)
    (hhi : res ∣ hi) (hpos : 0 ≤ a.atMs ∨ res ≤ lo) :
    total (rowsWithin node uuid user res lo hi) (contributions node uuid a b) =
      overlap a.atMs b.atMs lo hi • ((1 / 1000 : ℚ) • rate a user) := by
  have hwindow : ((slices res a.atMs b.atMs).map
      (fun s => if lo ≤ s.bucket ∧ s.bucket < lo + (hi - lo) then s.span else 0)).sum =
        overlap a.atMs b.atMs lo (lo + (hi - lo)) :=
    sum_span_window (by omega) hlo (dvd_sub hhi hlo) hpos
  rw [add_sub_cancel] at hwindow
  rw [rowsWithin, total_contributions h hres]
  simp only [decide_eq_true_eq]
  rw [hwindow, ← Int.cast_smul_eq_zsmul ℚ, smul_smul, ← div_eq_mul_one_div]

end Windows

section Runs

variable {P : Point → Prop} (nodes : Table NodeRow NodeRow.id) {calls : List (ℤ × Snapshot)}
  {node uuid : String} {res lo hi : ℤ}

theorem drawn_runIngest (hP : ∀ call ∈ calls, Accepted call.1 call.2 →
    ∀ g, Observable call.2 g → P (pointOf call.2 g)) :
    Drawn P (runIngest (freshStore nodes) calls) := by
  have hrun := foldl_invariant (fun st (call : ℤ × Snapshot) => ingested call.1 st call.2)
    (fun rest st => Drawn P st ∧ ∀ call ∈ rest, call ∈ calls)
    (by
      intro call rest st h
      have hmem : call ∈ calls := h.2 call List.mem_cons_self
      exact ⟨h.1.ingested (hP call hmem), fun c hc => h.2 c (List.mem_cons_of_mem call hc)⟩)
    calls (freshStore nodes) ⟨drawn_freshStore P nodes, fun _ h => h⟩
  exact hrun.1

/-- The range lies after the first bucket, or no clock is before the second day of 1970. -/
def Dated (calls : List (ℤ × Snapshot)) (res lo : ℤ) : Prop :=
  res ≤ lo ∨ ∀ call ∈ calls, 25 * 3600000 ≤ call.1

theorem Dated.drawn (hdate : Dated calls res lo) :
    Drawn (fun p => Sound p ∧ (0 ≤ p.atMs ∨ res ≤ lo)) (runIngest (freshStore nodes) calls) := by
  apply drawn_runIngest
  intro call hmem haccepted g hg
  refine ⟨sound_pointOf haccepted hg, ?_⟩
  rcases hdate with hlate | hclock
  · exact .inr hlate
  · have hnow := hclock call hmem
    have hat := haccepted.at_ge
    left
    change 0 ≤ call.2.atMs
    omega

/-- The rows of one card and user in a window sum up its states over the milliseconds of the
window. -/
theorem rollupSum_rowsWithin (hdistinct : DistinctTimes (runIngest (freshStore nodes) calls))
    (hres : res = 60000 ∨ res = 3600000) (hlo : res ∣ lo) (hhi : res ∣ hi)
    (hdate : Dated calls res lo) (user : String) :
    (runIngest (freshStore nodes) calls).rollupSum (rowsWithin node uuid user res lo hi) =
      (runIngest (freshStore nodes) calls).accumulated node uuid lo hi
        (fun p => (1 / 1000 : ℚ) • rate p user) := by
  have hi' := (integrated_runIngest nodes calls hdistinct).1 node
  have hd := hdate.drawn nodes
  generalize runIngest (freshStore nodes) calls = st at hi' hd ⊢
  have hboots : ∀ b, b ∉ (st.boots node uuid).toFinset → st.lanePoints node uuid b = [] := by
    intro b hb
    apply Store.lanePoints_eq_nil
    simpa using hb
  have hkeys : ∀ k, rowsWithin node uuid user res lo hi k → k.node = node ∧ k.uuid = uuid := by
    intro k hk
    simp only [rowsOf, decide_eq_true_eq] at hk
    exact ⟨hk.1, hk.2.1⟩
  have hlane : ∀ boot, st.laneIntegral node uuid boot (rowsWithin node uuid user res lo hi) =
      ∑ t ∈ Finset.Ico lo hi,
        (st.stateAt node uuid boot t).elim 0 (fun p => (1 / 1000 : ℚ) • rate p user) := by
    intro boot
    have hasc : Ascending Point.atMs (st.timeline node uuid boot) :=
      chronological_ascending (hi'.times uuid boot)
    unfold Store.stateAt
    rw [← chainSum_overlap hasc lo hi, Store.laneIntegral]
    apply chainSum_congr
    intro a b hab
    split_ifs with h
    · apply total_rowsWithin h hres hlo hhi
      obtain ⟨r, hr, -, -, -, hdata⟩ := Store.mem_lanePoints.mp (mem_chronological.mp hab.mem.1)
      rw [← hdata]
      exact (hd.points r hr).2
    · rw [contributions_of_not_bridged h, total_nil]
  have hnodup : (st.boots node uuid).Nodup := List.nodup_dedup _
  rw [hi'.sums uuid _ hkeys _ hboots, Store.accumulated, List.sum_toFinset _ hnodup]
  simp only [hlane]

end Runs

section Measures

variable (st : Store) (node uuid : String) (lo hi : ℤ)

theorem map_accumulated {M N : Type*} [AddCommMonoid M] [AddCommMonoid N] (φ : M →+ N)
    (rate : Point → M) : φ (st.accumulated node uuid lo hi rate) =
      st.accumulated node uuid lo hi (fun p => φ (rate p)) := by
  unfold Store.accumulated
  rw [map_list_sum, List.map_map]
  congr 1
  apply List.map_congr_left
  intro boot _
  rw [Function.comp_apply, map_sum]
  apply Finset.sum_congr rfl
  intro t _
  cases st.stateAt node uuid boot t <;> simp

theorem accumulated_congr {M : Type*} [AddCommMonoid M] {rate rate' : Point → M}
    (h : ∀ boot t, ∀ p ∈ st.stateAt node uuid boot t, rate p = rate' p) :
    st.accumulated node uuid lo hi rate = st.accumulated node uuid lo hi rate' := by
  unfold Store.accumulated
  congr 1
  apply List.map_congr_left
  intro boot _
  apply Finset.sum_congr rfl
  intro t _
  cases hp : st.stateAt node uuid boot t with
  | none => rfl
  | some p => exact h boot t p hp

/-- A constant rate where a test holds counts the milliseconds of the test. -/
theorem accumulated_ite (φ : Point → Bool) (c : ℚ) :
    st.accumulated node uuid lo hi (fun p => if φ p then c else 0) =
      (st.msWhere node uuid lo hi φ : ℚ) * c := by
  have hcast := map_accumulated st node uuid lo hi
    (((AddMonoidHom.mulRight c).comp (Nat.castAddMonoidHom ℚ))) (fun p => if φ p then 1 else 0)
  rw [Store.msWhere]
  refine Eq.trans ?_ hcast.symm
  congr 1
  funext p
  by_cases hp : φ p <;> simp [hp]

end Measures

theorem stateAt_drawn {P : Point → Prop} {st : Store} {node uuid boot : String} {t : ℤ} {p : Point}
    (hd : Drawn P st) (hi : Integrated st node) (h : st.stateAt node uuid boot t = some p) :
    P p := by
  have hasc : Ascending Point.atMs (st.timeline node uuid boot) :=
    chronological_ascending (hi.times uuid boot)
  obtain ⟨b, hab, -⟩ := (inForce_eq_some hasc).mp h
  obtain ⟨r, hr, -, -, -, rfl⟩ := Store.mem_lanePoints.mp (mem_chronological.mp hab.mem.1)
  exact hd.points r hr

end CardScope.Accounting
