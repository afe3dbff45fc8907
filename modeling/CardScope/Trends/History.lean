import CardScope.Hub.Queries
import CardScope.Integration.Bounds
import CardScope.Integration.Resolutions

/-! # The trend of a card

The points of a trend follow each other in steps of its resolution. A point has a value only where
something was measured, so no curve is drawn across a gap and no gap is a zero.
-/

namespace CardScope.Trends
open Library Hub Ingestion Integration

/-! ## Steps -/

section Steps

variable {start stop width : ℤ}

theorem steps_eq (start stop width : ℤ) : steps start stop width =
    (List.range ((stop - start + width - 1) / width).toNat).map (fun i : ℕ => start + i * width) := by
  simp only [steps, List.bind_eq_flatMap, List.pure_def, List.map_flatMap, List.map_cons,
    List.map_nil]
  exact List.map_eq_flatMap.symm

theorem mem_steps (hwidth : 0 < width) {t : ℤ} :
    t ∈ steps start stop width ↔ start ≤ t ∧ t < stop ∧ width ∣ t - start := by
  have hbelow : ∀ i : ℕ, i < ((stop - start + width - 1) / width).toNat ↔ start + i * width < stop := by
    intro i
    have hcount : (i : ℤ) + 1 ≤ (stop - start + width - 1) / width ↔
        (i + 1) * width ≤ stop - start + width - 1 := Int.le_ediv_iff_mul_le hwidth
    rw [add_mul] at hcount
    omega
  simp only [steps_eq, List.mem_map, List.mem_range, hbelow]
  constructor
  · rintro ⟨i, hi, rfl⟩
    have hnonneg : 0 ≤ (i : ℤ) * width := mul_nonneg (Int.natCast_nonneg i) hwidth.le
    exact ⟨by omega, hi, ⟨i, by ring⟩⟩
  · rintro ⟨hle, hlt, k, hk⟩
    have hnonneg : 0 ≤ k := nonneg_of_mul_nonneg_right (a := width) (by omega) hwidth
    lift k to ℕ using hnonneg
    have ht : start + k * width = t := by linarith
    exact ⟨k, ht ▸ hlt, ht⟩

theorem isChain_range_mul (start width : ℤ) (n : ℕ) :
    ((List.range n).map (fun i : ℕ => start + i * width)).IsChain (fun s t => t = s + width) := by
  apply (List.isChain_map _).mpr
  apply (List.isChain_range _ n).mpr
  intro i _
  push_cast
  ring

theorem isChain_steps (start stop width : ℤ) :
    (steps start stop width).IsChain (fun s t => t = s + width) := by
  rw [steps_eq]
  exact isChain_range_mul start width _

theorem isChain_fill {previous bucket : ℤ} (hwidth : 0 < width) (hlt : previous < bucket)
    (hdvd : width ∣ bucket - previous) :
    (previous :: (steps (previous + width) bucket width ++ [bucket])).IsChain
      (fun s t => t = s + width) := by
  obtain ⟨k, hk⟩ := hdvd
  have hpos : 0 < k := (mul_pos_iff_of_pos_left hwidth).mp (by omega)
  obtain ⟨n, rfl⟩ : ∃ n : ℕ, k = n + 1 := ⟨(k - 1).toNat, by omega⟩
  have hcount : (bucket - (previous + width) + width - 1) / width = n := by
    have hsplit : bucket - (previous + width) + width - 1 = width - 1 + width * n := by linarith
    rw [hsplit, Int.add_mul_ediv_left _ _ hwidth.ne', Int.ediv_eq_zero_of_lt (by omega) (by omega),
      zero_add]
  have hall : previous :: (steps (previous + width) bucket width ++ [bucket]) =
      (List.range (n + 2)).map (fun i : ℕ => previous + i * width) := by
    rw [steps_eq, hcount, Int.toNat_natCast, List.range_succ_eq_map, List.range_succ]
    simp only [List.map_cons, List.map_append, List.map_map, List.map_nil, Function.comp_def,
      Nat.succ_eq_add_one, Nat.cast_add, Nat.cast_zero, Nat.cast_one, zero_mul, add_zero, add_mul,
      one_mul]
    congr 2
    · apply List.map_congr_left
      intro i _
      ring
    · rw [List.cons_eq_cons]
      exact ⟨by linarith, rfl⟩
  rw [hall]
  exact isChain_range_mul previous width _

end Steps

/-! ## Filling gaps -/

/-- One point after the other: a step of `res`, or any step ahead from before the epoch. -/
def Follows (res s t : ℤ) : Prop := s < t ∧ (0 ≤ s → t = s + res)

section Gaps

variable {res previous : ℤ} {rows : List RollupRow}

theorem follows_of_step (hres : 0 < res) {s t : ℤ} (h : t = s + res) : Follows res s t :=
  ⟨by omega, fun _ => h⟩

theorem fillGaps_cons (r : RollupRow) (rest : List RollupRow) :
    (fillGaps res previous (r :: rest)).map HistoryPoint.atMs =
      (if previous ≥ 0 then steps (previous + res) r.key.bucket res else []) ++
        r.key.bucket :: (fillGaps res r.key.bucket rest).map HistoryPoint.atMs := by
  rw [fillGaps, List.map_append, List.map_map, List.map_cons]
  congr 1
  exact List.map_id _

theorem isChain_fillGaps (hres : 0 < res)
    (hsorted : (previous :: rows.map (fun r => r.key.bucket)).Pairwise (· < ·))
    (hdvd : ∀ r ∈ rows, res ∣ r.key.bucket) (hprevious : res ∣ previous) :
    (previous :: (fillGaps res previous rows).map HistoryPoint.atMs).IsChain (Follows res) := by
  induction rows generalizing previous with
  | nil => exact List.isChain_singleton _
  | cons r rest ih =>
    rw [List.map_cons, List.pairwise_cons, List.forall_mem_cons] at hsorted
    obtain ⟨⟨hlt, -⟩, hrest⟩ := hsorted
    rw [List.forall_mem_cons] at hdvd
    have hlater := ih hrest hdvd.2 hdvd.1
    rw [fillGaps_cons]
    by_cases hstarted : previous ≥ 0
    · rw [if_pos hstarted, ← List.cons_append]
      apply List.isChain_split.mpr
      rw [List.cons_append]
      exact ⟨(isChain_fill hres hlt (dvd_sub hdvd.1 hprevious)).imp
        (fun _ _ => follows_of_step hres), hlater⟩
    · rw [if_neg hstarted, List.nil_append, List.isChain_cons_cons]
      exact ⟨⟨hlt, fun h => absurd h hstarted⟩, hlater⟩

theorem pairwise_of_follows {l : List ℤ} (h : l.IsChain (Follows res)) : l.Pairwise (· < ·) :=
  List.isChain_iff_pairwise.mp (h.imp (fun _ _ hst => hst.1))

/-- A point is that of a row, or it has no value and there is no row for it. -/
theorem mem_fillGaps (hres : 0 < res) (hsorted : (rows.map (fun r => r.key.bucket)).Pairwise (· < ·))
    (hdvd : ∀ r ∈ rows, res ∣ r.key.bucket) {p : HistoryPoint} (hp : p ∈ fillGaps res previous rows) :
    (∃ r ∈ rows, p = r.point res) ∨ p.util = none ∧ ∀ r ∈ rows, r.key.bucket ≠ p.atMs := by
  induction rows generalizing previous with
  | nil => cases hp
  | cons r rest ih =>
    rw [List.map_cons] at hsorted
    obtain ⟨hlt, hrest⟩ := List.pairwise_cons.mp hsorted
    rw [List.forall_mem_cons] at hdvd
    rw [fillGaps, List.mem_append, List.mem_cons] at hp
    rcases hp with hgap | rfl | hlater
    · obtain ⟨t, ht, rfl⟩ := List.mem_map.mp hgap
      have hbefore : t < r.key.bucket := by
        split_ifs at ht
        · exact ((mem_steps hres).mp ht).2.1
        · cases ht
      refine .inr ⟨rfl, List.forall_mem_cons.mpr ⟨hbefore.ne', ?_⟩⟩
      intro r' hr'
      exact (hbefore.trans (hlt _ (List.mem_map_of_mem hr'))).ne'
    · exact .inl ⟨r, List.mem_cons_self, rfl⟩
    · rcases ih hrest hdvd.2 hlater with ⟨r', hr', hrow⟩ | ⟨hutil, hnone⟩
      · exact .inl ⟨r', List.mem_cons_of_mem r hr', hrow⟩
      · have hchain := pairwise_of_follows (isChain_fillGaps hres hsorted hdvd.2 hdvd.1)
        have hafter := (List.pairwise_cons.mp hchain).1 _ (List.mem_map_of_mem hlater)
        exact .inr ⟨hutil, List.forall_mem_cons.mpr ⟨hafter.ne, hnone⟩⟩

theorem point_mem_fillGaps {r : RollupRow} (hr : r ∈ rows) :
    r.point res ∈ fillGaps res previous rows := by
  induction rows generalizing previous with
  | nil => cases hr
  | cons s rest ih =>
    rw [fillGaps, List.mem_append, List.mem_cons]
    rcases List.mem_cons.mp hr with rfl | hr
    · exact .inr (.inl rfl)
    · exact .inr (.inr (ih hr))

theorem getLast?_fillGaps :
    (fillGaps res previous rows).getLast? = rows.getLast?.map (RollupRow.point res) := by
  induction rows generalizing previous with
  | nil => rfl
  | cons r rest ih =>
    rw [fillGaps, List.getLast?_append, List.getLast?_cons, ih, List.getLast?_cons]
    cases rest.getLast? <;> rfl

theorem fillGaps_first (hfirst : previous < 0) (r : RollupRow) (rest : List RollupRow) :
    fillGaps res previous (r :: rest) = r.point res :: fillGaps res r.key.bucket rest := by
  rw [fillGaps, if_neg (not_le.mpr hfirst)]
  rfl

theorem head?_fillGaps (hfirst : previous < 0) :
    (fillGaps res previous rows).head? = rows.head?.map (RollupRow.point res) := by
  cases rows with
  | nil => rfl
  | cons r rest => rw [fillGaps_first hfirst, List.head?_cons, List.head?_cons, Option.map_some]

theorem isChain_points (hres : 0 < res)
    (hsorted : (rows.map (fun r => r.key.bucket)).Pairwise (· < ·))
    (hdvd : ∀ r ∈ rows, res ∣ r.key.bucket) (hfirst : previous < 0) :
    ((fillGaps res previous rows).map HistoryPoint.atMs).IsChain (Follows res) := by
  cases rows with
  | nil => exact List.isChain_nil
  | cons r rest =>
    rw [List.forall_mem_cons] at hdvd
    rw [fillGaps_first hfirst, List.map_cons]
    exact isChain_fillGaps hres hsorted hdvd.2 hdvd.1

end Gaps

/-! ## Rows -/

def Aligned (k : RollupKey) : Prop := (k.res = 60000 ∨ k.res = 3600000) ∧ k.res ∣ k.bucket

theorem aligned_contributions {node uuid : String} {a b : Point} {c : Contribution}
    (hc : c ∈ contributions node uuid a b) : Aligned c.key := by
  obtain ⟨-, res, hres, s, hs, hcase⟩ := mem_contributions hc
  have hdvd : res ∣ s.bucket := dvd_bucket (by omega) hs
  rcases hcase with rfl | ⟨-, user, -, rfl⟩
  · exact ⟨hres, hdvd⟩
  · exact ⟨hres, hdvd⟩

theorem aligned_replaceEdge {tx : Store} {n u boot : String} {a b : Point}
    (hedges : ∀ e ∈ tx.edges, Interval (fun _ => True) e)
    (h : ∀ k, tx.rollups.HasKey k → Aligned k) {k : RollupKey}
    (hk : (replaceEdge tx n u boot a b).rollups.HasKey k) : Aligned k := by
  rw [replaceEdge_rollups, hasKey_applyContributions, hasKey_applyContributions] at hk
  rcases hk with ⟨c, hc, rfl⟩ | ⟨c, hc, rfl⟩ | hk
  · exact aligned_contributions hc
  · unfold Store.edgeData at hc
    cases hf : tx.edges.find? (n, u, boot, b.seq) with
    | none =>
      rw [hf] at hc
      exact absurd hc List.not_mem_nil
    | some e =>
      obtain ⟨a', b', -, -, hdata⟩ := hedges e (Table.find?_eq_some.mp hf).1
      rw [hf, Option.elim_some, hdata] at hc
      exact aligned_contributions hc
  · exact h k hk

theorem aligned_run (nodes : Table NodeRow NodeRow.id) (events : List Event) {r : RollupRow}
    (hr : r ∈ (run (freshStore nodes) events).rollups) : Aligned r.key := by
  have hrun := run_induction (P := fun _ => True)
    (fun st => ∀ k, st.rollups.HasKey k → Aligned k) nodes events
    (fun _ _ _ _ _ _ => trivial)
    (fun k hk => absurd hk (by rintro ⟨_, ⟨⟩, _⟩))
    (fun _ _ _ _ _ _ _ _ h hc hd hI =>
      h.links (I := fun _ rollups => ∀ k, rollups.HasKey k → Aligned k) hc hd (fun _ _ => trivial)
        (fun _ _ _ _ _ _ hedges _ _ hI _ => aligned_replaceEdge hedges hI) hI)
    (fun _ _ _ _ hI k ⟨r, hr, hk⟩ => hI k ⟨r, (Table.mem_keep.mp hr).1, hk⟩)
  exact hrun.1 r.key ⟨r, hr, rfl⟩

theorem queryRange_pos (now : ℤ) (r : Request) : 0 < (queryRange now r).res := by
  have hres : (queryRange now r).res = 3600000 ∨ (queryRange now r).res = 60000 :=
    ite_eq_or_eq _ _ _
  omega

section Rows

variable {st : Store} {node uuid : String} {range : Range}

theorem mem_historyRows {r : RollupRow} : r ∈ historyRows st node uuid range ↔
    r ∈ st.rollups ∧ r.key = ⟨node, uuid, "", range.res, r.key.bucket⟩ ∧
      range.fromMs ≤ r.key.bucket ∧ r.key.bucket < range.toMs := by
  rw [historyRows, List.mem_insertionSort, List.mem_filter, decide_eq_true_eq, Table.mem_def]
  cases hk : r.key
  simp only [RollupKey.mk.injEq, and_true, ge_iff_le, and_assoc]

theorem historyRows_bucket {r s : RollupRow} (hr : r ∈ historyRows st node uuid range)
    (hs : s ∈ historyRows st node uuid range) (h : r.key.bucket = s.key.bucket) : r = s := by
  obtain ⟨hrmem, hrkey, -⟩ := mem_historyRows.mp hr
  obtain ⟨hsmem, hskey, -⟩ := mem_historyRows.mp hs
  apply Table.eq_of_key hrmem hsmem
  rw [hrkey, hskey, h]

theorem historyRows_sorted (st : Store) (node uuid : String) (range : Range) :
    ((historyRows st node uuid range).map (fun r => r.key.bucket)).Pairwise (· < ·) := by
  have hle : ((historyRows st node uuid range).map (fun r => r.key.bucket)).Pairwise (· ≤ ·) := by
    apply List.pairwise_map.mpr
    exact List.pairwise_insertionSort (fun r s : RollupRow => r.key.bucket ≤ s.key.bucket) _
  have hnodup : ((historyRows st node uuid range).map (fun r => r.key.bucket)).Nodup := by
    apply List.Nodup.map_on (fun r hr s hs h => historyRows_bucket hr hs h)
    apply (List.perm_insertionSort _ _).nodup_iff.mpr
    exact (List.Nodup.of_map _ st.rollups.nodup).filter _
  exact hle.imp₂ (fun _ _ hle hne => lt_of_le_of_ne hle hne) hnodup

end Rows

section Trend

variable (nodes : Table NodeRow NodeRow.id) (events : List Event) (now : ℤ) (r : Request)

def shownRows (now : ℤ) (st : Store) (r : Request) : List RollupRow :=
  historyRows st (r.query "node") (r.query "gpu") (queryRange now r)

theorem point_util {row : RollupRow} (hvalid : row.measures.Valid) (res : ℤ) :
    ((row.point res).util = none ↔ row.measures.utilValid = 0) ∧ ∀ u, (row.point res).util = some u →
      u = 100 * row.measures.weighted / row.measures.utilValid ∧ 0 ≤ u ∧ u ≤ 100 := by
  rw [RollupRow.point]
  by_cases hpos : row.measures.utilValid > 0
  · rw [if_pos hpos]
    refine ⟨iff_of_false (Option.some_ne_none _) hpos.ne', ?_⟩
    intro u hu
    obtain rfl := Option.some_inj.mp hu
    have hratio : 0 ≤ row.measures.weighted / row.measures.utilValid ∧
        row.measures.weighted / row.measures.utilValid ≤ 1 :=
      ⟨div_nonneg hvalid.weighted_nonneg hpos.le, (div_le_one hpos).mpr hvalid.weighted_le⟩
    refine ⟨by ring, by linarith, by linarith⟩
  · rw [if_neg hpos]
    exact ⟨iff_of_true rfl (le_antisymm (not_lt.mp hpos) hvalid.utilValid_nonneg),
      fun u hu => by cases hu⟩

/-- The points of a trend go on in steps of the resolution, except before the epoch, and have no
value exactly where nothing valid was measured. -/
structure Gapless (res : ℤ) (rows : List RollupRow) (points : List HistoryPoint) : Prop where
  steps : (points.map HistoryPoint.atMs).IsChain (fun s t => s < t ∧ (0 ≤ s → t = s + res))
  ends : ∀ p, points.head? = some p ∨ points.getLast? = some p →
    ∃ row ∈ rows, row.key.bucket = p.atMs
  complete : ∀ row ∈ rows, ∃ p ∈ points, p.atMs = row.key.bucket
  missing : ∀ p ∈ points, p.util = none ↔
    ∀ row ∈ rows, row.key.bucket = p.atMs → row.measures.utilValid = 0
  mean : ∀ p ∈ points, ∀ u, p.util = some u → ∃ row ∈ rows, row.key.bucket = p.atMs ∧
    u = 100 * row.measures.weighted / row.measures.utilValid ∧ 0 ≤ u ∧ u ≤ 100

theorem gapless_fillGaps {res previous : ℤ} {rows : List RollupRow} (hres : 0 < res)
    (hfirst : previous < 0) (hsorted : (rows.map (fun r => r.key.bucket)).Pairwise (· < ·))
    (hdvd : ∀ row ∈ rows, res ∣ row.key.bucket) (hvalid : ∀ row ∈ rows, row.measures.Valid) :
    Gapless res rows (fillGaps res previous rows) where
  steps := isChain_points hres hsorted hdvd hfirst
  ends := by
    rintro p (hp | hp)
    · rw [head?_fillGaps hfirst, Option.map_eq_some_iff] at hp
      obtain ⟨row, hrow, rfl⟩ := hp
      exact ⟨row, List.mem_of_mem_head? hrow, rfl⟩
    · rw [getLast?_fillGaps, Option.map_eq_some_iff] at hp
      obtain ⟨row, hrow, rfl⟩ := hp
      exact ⟨row, List.mem_of_getLast? hrow, rfl⟩
  complete := fun row hrow => ⟨row.point res, point_mem_fillGaps hrow, rfl⟩
  missing := by
    intro p hp
    rcases mem_fillGaps hres hsorted hdvd hp with ⟨row, hrow, rfl⟩ | ⟨hnone, hmissing⟩
    · rw [(point_util (hvalid row hrow) res).1]
      refine ⟨?_, fun h => h row hrow rfl⟩
      intro hzero row' hrow' hbucket
      -- two rows of one bucket would not be in the order of time
      have hnodup : (rows.map (fun r => r.key.bucket)).Nodup := hsorted.imp (fun h => h.ne)
      obtain rfl := List.inj_on_of_nodup_map hnodup hrow' hrow hbucket
      exact hzero
    · exact iff_of_true hnone (fun row hrow hbucket => absurd hbucket (hmissing row hrow))
  mean := by
    intro p hp u hu
    rcases mem_fillGaps hres hsorted hdvd hp with ⟨row, hrow, rfl⟩ | ⟨hnone, -⟩
    · exact ⟨row, hrow, rfl, (point_util (hvalid row hrow) res).2 u hu⟩
    · rw [hnone] at hu
      cases hu

/-- The trend of a card after any uploads and cleanups has no hole and shows no hole as a zero. -/
theorem history_gapless : Gapless (history now (run (freshStore nodes) events) r).1.res
    (shownRows now (run (freshStore nodes) events) r)
    (history now (run (freshStore nodes) events) r).2 := by
  have hdvd : ∀ row ∈ shownRows now (run (freshStore nodes) events) r,
      (queryRange now r).res ∣ row.key.bucket := by
    intro row hrow
    obtain ⟨hmem, hkey, -⟩ := mem_historyRows.mp hrow
    have haligned := (aligned_run nodes events hmem).2
    rwa [congrArg RollupKey.res hkey] at haligned
  have hvalid : ∀ row ∈ shownRows now (run (freshStore nodes) events) r, row.measures.Valid := by
    intro row hrow
    exact valid_rollups nodes events (mem_historyRows.mp hrow).1
  exact gapless_fillGaps (queryRange_pos now r) (by norm_num) (historyRows_sorted _ _ _ _) hdvd hvalid

end Trend

/-- Reports at two times before the epoch, with nothing between them. -/
def earlyReports : List Event :=
  [.ingest 0 (sample "n" 1 (-600000)), .ingest 0 (sample "n" 2 (-595000)),
    .ingest 0 (sample "n" 3 (-300000)), .ingest 0 (sample "n" 4 (-295000))]

/-- The request for the trend of the card, with the range that is taken when none is given. -/
def trendRequest : Request where
  method := "GET"
  path := "/api/v1/history"
  query := fun key => if key = "node" then "n" else if key = "gpu" then "GPU-test" else ""

/-- A gap after a bucket before the epoch is not filled. -/
theorem history_gap_before_epoch : ¬ ∀ (nodes : Table NodeRow NodeRow.id) (events : List Event)
    (now : ℤ) (r : Request),
    ((history now (run (freshStore nodes) events) r).2.map HistoryPoint.atMs).IsChain
      (fun s t => t = s + (history now (run (freshStore nodes) events) r).1.res) := by
  intro h
  have hchain := h (node "n") earlyReports 0 trendRequest
  have hpoints : (history 0 (run (freshStore (node "n")) earlyReports) trendRequest).2.map
      HistoryPoint.atMs = [-600000, -300000] := by
    decide +kernel
  have hres : (history 0 (run (freshStore (node "n")) earlyReports) trendRequest).1.res = 60000 := by
    decide +kernel
  rw [hpoints, hres, List.isChain_cons_cons] at hchain
  exact absurd hchain.1 (by norm_num)

end CardScope.Trends
