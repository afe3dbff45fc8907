import CardScope.Integration.Weights

/-! # Hour rows and minute rows

Minute and hour sums are kept by separate splits of every interval. A whole hour receives
the same overlap with an interval through either, so each stored edge is balanced, and every
retraction and addition keeps the hour row equal to its sixty minute rows.
-/

namespace CardScope.Integration
open Library Model Hub Ingestion

abbrev hourRow (node uuid user : String) (hour : ℤ) : RollupKey → Bool :=
  rowsOf node uuid user 3600000 (fun bucket => bucket = hour)

abbrev minuteRows (node uuid user : String) (hour : ℤ) : RollupKey → Bool :=
  rowsOf node uuid user 60000 (fun bucket => hour ≤ bucket ∧ bucket < hour + 3600000)

/-- Hour and minutes agree for every card and user. -/
def Balanced (hour : ℤ) (sums : (RollupKey → Bool) → Measures) : Prop := ∀ node uuid user,
  sums (hourRow node uuid user hour) = sums (minuteRows node uuid user hour)

variable {hour : ℤ} {node uuid : String} {a b : Point}

theorem dvd_bucket {res start stop : ℤ} (hres : 0 < res) {s : Slice}
    (hs : s ∈ slices res start stop) : res ∣ s.bucket := by
  induction start using slices_induction res stop hres with
  | done start h => simp [slices_of_le h] at hs
  | cut start h ih =>
    rw [slices_of_lt hres h, List.mem_cons] at hs
    rcases hs with rfl | hs
    · exact dvd_mul_left res _
    · exact ih hs

theorem hour_bucket_iff (hhour : 3600000 ∣ hour) {bucket : ℤ} (hb : 3600000 ∣ bucket) :
    bucket = hour ↔ hour ≤ bucket ∧ bucket < hour + 3600000 := by
  omega

theorem balanced_contributions (hhour : 3600000 ∣ hour) (ha : 0 ≤ a.atMs ∨ 3600000 ≤ hour) :
    Balanced hour (fun p => total p (contributions node uuid a b)) := by
  intro n u user
  by_cases hcard : n = node ∧ u = uuid
  · obtain ⟨rfl, rfl⟩ := hcard
    by_cases h : Bridged a b
    · have hhours : ((slices 3600000 a.atMs b.atMs).map
          (fun s => if decide (s.bucket = hour) then s.span else 0)).sum =
            overlap a.atMs b.atMs hour (hour + 3600000) := by
        rw [← sum_span_window (by norm_num) hhour (dvd_refl 3600000) ha]
        refine congrArg List.sum (List.map_congr_left (fun s hs => ?_))
        have hiff := hour_bucket_iff hhour (dvd_bucket (by norm_num) hs)
        simp only [decide_eq_true_eq, hiff]
      have hminutes : ((slices 60000 a.atMs b.atMs).map
          (fun s => if decide (hour ≤ s.bucket ∧ s.bucket < hour + 3600000) then s.span
            else 0)).sum = overlap a.atMs b.atMs hour (hour + 3600000) := by
        simp only [decide_eq_true_eq]
        exact sum_span_window (by norm_num) (by omega) (by norm_num) (by omega)
      dsimp only
      rw [total_contributions h (.inr rfl), total_contributions h (.inl rfl), hhours, hminutes]
    · dsimp only
      rw [contributions_of_not_bridged h, total_nil, total_nil]
  · have hother : ∀ res W, total (rowsOf n u user res W) (contributions node uuid a b) = 0 := by
      intro res W
      refine total_contributions_of_other (fun k hk he => hcard ?_)
      simp only [rowsOf, decide_eq_true_eq] at hk
      exact ⟨hk.1.symm.trans he.1, hk.2.1.symm.trans he.2⟩
    dsimp only
    rw [hother, hother]

section Run

variable {now : ℤ} {st tx tx' st' : Store} {s full : Snapshot} {row : NodeRow} {g : GPU}

/-- The time of a point is not before the epoch, unless the hour is well after it. -/
abbrev AfterEpoch (hour : ℤ) (p : Point) : Prop := 0 ≤ p.atMs ∨ 3600000 ≤ hour

theorem Balanced.replaceEdge (hhour : 3600000 ∣ hour) {n u boot : String}
    (hb : Balanced hour (sumOn tx.rollups))
    (hd : ∀ e ∈ tx.edges, Interval (AfterEpoch hour) e) (ha : AfterEpoch hour a) :
    Balanced hour (sumOn (replaceEdge tx n u boot a b).rollups) := by
  have hold : Balanced hour (fun p => total p (tx.edgeData n u boot b.seq)) := by
    unfold Store.edgeData
    cases hf : tx.edges.find? (n, u, boot, b.seq) with
    | none => exact fun _ _ _ => rfl
    | some e =>
      obtain ⟨a, c, ha, -, hdata⟩ := hd e (Table.find?_eq_some.mp hf).1
      rw [Option.elim_some, hdata]
      exact balanced_contributions hhour ha
  intro n' u' user
  have hsub : total (hourRow n' u' user hour) (tx.edgeData n u boot b.seq) =
      total (minuteRows n' u' user hour) (tx.edgeData n u boot b.seq) := hold n' u' user
  have hadd : total (hourRow n' u' user hour) (contributions n u a b) =
      total (minuteRows n' u' user hour) (contributions n u a b) :=
    balanced_contributions hhour ha n' u' user
  have hsum : tx.rollupSum (hourRow n' u' user hour) = tx.rollupSum (minuteRows n' u' user hour) :=
    hb n' u' user
  change (Hub.replaceEdge tx n u boot a b).rollupSum _ =
    (Hub.replaceEdge tx n u boot a b).rollupSum _
  rw [rollupSum_replaceEdge, rollupSum_replaceEdge, hsum, hsub, hadd]

theorem balanced_of_recorded (hhour : 3600000 ∣ hour)
    (h : Recorded now st s row full tx st') (hb : Balanced hour (sumOn st.rollups))
    (hc : Consistent st s.nodeID) (hd : Drawn (AfterEpoch hour) st)
    (hP : ∀ g, Observable s g → AfterEpoch hour (pointOf s g)) :
    Balanced hour (sumOn st'.rollups) :=
  h.links (I := fun _ rollups => Balanced hour (sumOn rollups)) hc hd hP
    (fun _ _ _ _ _ _ hedges ha _ hI => hI.replaceEdge hhour hedges ha) hb

/-- A cleanup whose minute cutoff is not after the hour deletes none of its rows. -/
theorem balanced_prune (hb : Balanced hour (sumOn st.rollups))
    (hcut : now - 30 * 86400000 ≤ hour) : Balanced hour (sumOn (prune now st).rollups) := by
  have hkeep : ∀ node uuid user res (W : ℤ → Bool),
      (∀ bucket, W bucket → hour ≤ bucket) →
      sumOn (prune now st).rollups (rowsOf node uuid user res W) =
        sumOn st.rollups (rowsOf node uuid user res W) := by
    intro node uuid user res W hW
    refine Table.sum_keep_of_zero _ _ _ (fun r _ hexp => if_neg (fun hk => ?_))
    simp only [rowsOf, decide_eq_true_eq] at hk
    have hbucket := hW _ hk.2.2.2.2
    simp only [expired, Bool.not_eq_false', decide_eq_true_eq] at hexp
    omega
  intro node uuid user
  rw [hkeep, hkeep]
  · exact hb node uuid user
  · intro bucket hW
    exact (of_decide_eq_true hW).1
  · intro bucket hW
    exact (of_decide_eq_true hW).ge

end Run

/-- Every hour row equals the sum of its minute rows, after any uploads and cleanups that left
the hour inside the minute retention. -/
theorem hour_eq_minutes (nodes : Table NodeRow NodeRow.id) (events : List Event) (hour : ℤ)
    (hhour : 3600000 ∣ hour)
    (hprune : ∀ now, Event.prune now ∈ events → now - 30 * 86400000 ≤ hour)
    (hclock : 3600000 ≤ hour ∨ ∀ now s, Event.ingest now s ∈ events → 25 * 3600000 ≤ now)
    (node uuid user : String) :
    (run (freshStore nodes) events).rollup ⟨node, uuid, user, 3600000, hour⟩ =
      (run (freshStore nodes) events).rollupSum (minuteRows node uuid user hour) := by
  have hP : ∀ now s, Event.ingest now s ∈ events → Accepted now s →
      ∀ g, AfterEpoch hour (pointOf s g) := by
    intro now s hmem haccepted g
    rcases hclock with hlate | hclock
    · exact .inr hlate
    · have hnow := hclock now s hmem
      have hat := haccepted.at_ge
      exact .inl (by change 0 ≤ s.atMs; omega)
  obtain ⟨hb, -⟩ := run_induction (fun st => Balanced hour (sumOn st.rollups)) nodes events
    (fun now s he h g _ => hP now s he h g) (fun _ _ _ => rfl)
    (fun now s _ _ _ _ _ he h hc hd hb =>
      balanced_of_recorded hhour h hb hc hd (fun g _ => hP now s he h.accepted g))
    (fun now _ he _ hb => balanced_prune hb (hprune now he))
  have hkey : (fun k : RollupKey => decide (k = ⟨node, uuid, user, 3600000, hour⟩)) =
      hourRow node uuid user hour := by
    funext k
    cases k
    simp [rowsOf]
  rw [← Store.rollupSum_eq, hkey]
  exact hb node uuid user

/-- Two reports across a minute boundary and a cleanup. -/
theorem hour_eq_minutes_crossing :
    (run (freshStore (Hub.node "n")) [.ingest 1700000171000 (sample "n" 1 1700000098000),
      .ingest 1700000171000 (sample "n" 2 1700000103000), .prune 1700000171000]).rollup
        ⟨"n", "GPU-test", "1000", 3600000, 1699999200000⟩ =
    (run (freshStore (Hub.node "n")) [.ingest 1700000171000 (sample "n" 1 1700000098000),
      .ingest 1700000171000 (sample "n" 2 1700000103000), .prune 1700000171000]).rollupSum
        (minuteRows "n" "GPU-test" "1000" 1699999200000) :=
  hour_eq_minutes (Hub.node "n") _ 1699999200000 (by norm_num)
    (by
      intro now h
      obtain rfl : now = 1700000171000 := by simpa using h
      norm_num)
    (.inl (by norm_num)) "n" "GPU-test" "1000"

/-- A clock before the second day of 1970 lets reports before the epoch in. There the division
truncates upwards, and the hour at zero takes in what no minute of it does. -/
theorem hour_ne_minutes_before_epoch : ¬ ∀ (nodes : Table NodeRow NodeRow.id)
    (events : List Event) (hour : ℤ), 3600000 ∣ hour →
    (∀ now, Event.prune now ∈ events → now - 30 * 86400000 ≤ hour) →
    ∀ node uuid user, (run (freshStore nodes) events).rollup ⟨node, uuid, user, 3600000, hour⟩ =
      (run (freshStore nodes) events).rollupSum (minuteRows node uuid user hour) := by
  intro h
  have hzero := h (Hub.node "n")
    [.ingest 0 (sample "n" 1 (-120000)), .ingest 0 (sample "n" 2 (-115000))] 0 (by norm_num)
    (by simp) "n" "GPU-test" ""
  exact absurd hzero (by decide +kernel)

end CardScope.Integration
