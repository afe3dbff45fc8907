import CardScope.Ingestion.Effects

/-! # The time of reception

Uploads of a backlog and repeated uploads make no difference to the time at which the hub last
heard from a node, although they move the time of its live state.
-/

namespace CardScope.Live
open Library Model Hub Ingestion

def receivedAt (st : Store) (n : String) : Option ℤ := (st.nodes.find? n).map NodeRow.receivedAt

/-- The upload comes from a backlog, or its identity is accepted already. -/
def Replayed (st : Store) (s : Snapshot) : Prop :=
  s.backfill = true ∨ st.samples.HasKey (sampleRow s).key

instance (st : Store) (s : Snapshot) : Decidable (Replayed st s) :=
  inferInstanceAs (Decidable (s.backfill = true ∨ st.samples.HasKey (sampleRow s).key))

/-- The uploads that remain when backlog and repetitions are taken out of a run. -/
def withoutReplays (st : Store) : List (ℤ × Snapshot) → List (ℤ × Snapshot)
  | [] => []
  | (now, s) :: rest =>
    let later := withoutReplays (ingested now st s) rest
    if Replayed st s then later else (now, s) :: later

/-- A run under a clock that does not turn back, with one sampling interval for each node, in which
an upload from a backlog is too old to be live. -/
structure Steady (calls : List (ℤ × Snapshot)) : Prop where
  clock : (calls.map Prod.fst).Pairwise (· ≤ ·)
  interval : ∀ c ∈ calls, ∀ c' ∈ calls, c.2.nodeID = c'.2.nodeID → c.2.interval = c'.2.interval
  backlog : ∀ c ∈ calls, c.2.backfill = true → c.1 - c.2.atMs > 2000 * c.2.interval

/-- The row of a node in the whole run and in the run without replays: the same time of reception,
and the same live time unless that is too old for all uploads still to come. -/
structure Behind (n : String) (rest : List (ℤ × Snapshot)) (row row' : NodeRow) : Prop where
  received : row.receivedAt = row'.receivedAt
  le : row'.sampleAt ≤ row.sampleAt
  old : row.sampleAt = row'.sampleAt ∨ ∀ call ∈ rest, call.2.nodeID = n →
    row.sampleAt < call.1 - call.2.interval * 2000

structure Shadows (rest : List (ℤ × Snapshot)) (st st' : Store) : Prop where
  samples : ∀ k, st'.samples.HasKey k → st.samples.HasKey k
  rows : ∀ n, Option.Rel (Behind n rest) (st.nodes.find? n) (st'.nodes.find? n)

variable {n : String} {calls rest : List (ℤ × Snapshot)} {call : ℤ × Snapshot} {now : ℤ}
  {st st' tx tx' new new' : Store} {s full full' : Snapshot} {node node' row row' : NodeRow}

theorem Steady.tail (h : Steady (call :: rest)) : Steady rest := by
  constructor
  · exact (List.pairwise_cons.mp h.clock).2
  · exact fun c hc c' hc' =>
      h.interval c (List.mem_cons_of_mem _ hc) c' (List.mem_cons_of_mem _ hc')
  · exact fun c hc => h.backlog c (List.mem_cons_of_mem _ hc)

theorem Steady.clock_le (h : Steady (call :: rest)) {c : ℤ × Snapshot} (hc : c ∈ rest) :
    call.1 ≤ c.1 :=
  (List.pairwise_cons.mp h.clock).1 _ (List.mem_map_of_mem hc)

theorem Behind.tail (h : Behind n (call :: rest) row row') : Behind n rest row row' :=
  ⟨h.received, h.le, h.old.imp_right (fun hold c hc => hold c (List.mem_cons_of_mem _ hc))⟩

theorem Shadows.tail (h : Shadows (call :: rest) st st') : Shadows rest st st' := by
  refine ⟨h.samples, fun n => ?_⟩
  have hrows := h.rows n
  generalize st.nodes.find? n = row at hrows ⊢
  generalize st'.nodes.find? n = row' at hrows ⊢
  cases hrows with
  | some hrow => exact .some hrow.tail
  | none => exact .none

theorem full_fields (h : Recorded now st s node full tx new) :
    full.backfill = s.backfill ∧ full.atMs = s.atMs ∧ full.interval = s.interval := by
  rw [h.full_eq]
  exact ⟨rfl, rfl, rfl⟩

/-- A report from a backlog does not refresh its node, and leaves a time that is too old. -/
theorem Behind.backlog (h : Behind s.nodeID ((now, s) :: rest) node row)
    (hs : Steady ((now, s) :: rest)) (hb : s.backfill = true)
    (hr : Recorded now st s node full tx new) :
    Behind s.nodeID rest (refreshedRow now full node) row := by
  obtain ⟨hfull, hat, hint⟩ := full_fields hr
  have hquiet : ¬ Refreshes now full node := by
    rintro ⟨hfresh, -⟩
    rw [hfull, hb] at hfresh
    exact Bool.noConfusion hfresh
  constructor
  · rw [refreshedRow_receivedAt, if_neg hquiet]
    exact h.received
  · rw [refreshedRow_sampleAt]
    exact h.le.trans (le_max_left _ _)
  · rw [refreshedRow_sampleAt, hat]
    by_cases hnewer : node.sampleAt < s.atMs
    · rw [max_eq_right hnewer.le]
      refine .inr (fun c hc hn => ?_)
      have hage : now - s.atMs > 2000 * s.interval := hs.backlog _ List.mem_cons_self hb
      have hclock : now ≤ c.1 := hs.clock_le hc
      have hsame : c.2.interval = s.interval :=
        hs.interval c (List.mem_cons_of_mem _ hc) _ List.mem_cons_self hn
      rw [hsame]
      omega
    · rw [max_eq_left (not_lt.mp hnewer)]
      exact h.tail.old

/-- A live report finds both rows ready to be refreshed, or none. -/
theorem Behind.live (h : Behind s.nodeID ((now, s) :: rest) node node')
    (hr : Recorded now st s node full tx new) (hr' : Recorded now st' s node' full' tx' new') :
    Behind s.nodeID rest (refreshedRow now full node) (refreshedRow now full' node') := by
  obtain ⟨hfull, hat, hint⟩ := full_fields hr
  obtain ⟨hfull', hat', hint'⟩ := full_fields hr'
  have hsame : Refreshes now full node ↔ Refreshes now full' node' := by
    unfold Refreshes
    rw [hfull, hfull', hat, hat', hint, hint']
    refine and_congr_right (fun _ => and_congr_left (fun hfresh => ?_))
    rcases h.old with heq | hold
    · rw [heq]
    · have hage := hold (now, s) List.mem_cons_self rfl
      have hle := h.le
      simp only at hage
      omega
  constructor
  · rw [refreshedRow_receivedAt, refreshedRow_receivedAt, h.received]
    simp only [hsame]
  · rw [refreshedRow_sampleAt, refreshedRow_sampleAt, hat, hat']
    exact max_le_max_right _ h.le
  · rw [refreshedRow_sampleAt, refreshedRow_sampleAt, hat, hat']
    rcases h.tail.old with heq | hold
    · exact .inl (by rw [heq])
    · by_cases hnewer : node.sampleAt < s.atMs
      · exact .inl (by rw [max_eq_right hnewer.le, max_eq_right (h.le.trans hnewer.le)])
      · rw [max_eq_left (not_lt.mp hnewer)]
        exact .inr hold

theorem Shadows.replayed (h : Shadows ((now, s) :: rest) st st')
    (hs : Steady ((now, s) :: rest)) (hreplay : Replayed st s) :
    Shadows rest (ingested now st s) st' := by
  rcases ingested_cases now st s with heq | ⟨node, full, tx, hr⟩
  · rw [heq]
    exact h.tail
  · have hb : s.backfill = true := hreplay.resolve_right hr.fresh
    refine ⟨fun k hk => ?_, fun n => ?_⟩
    · obtain ⟨r, hmem, hkey⟩ := h.samples k hk
      refine ⟨r, ?_, hkey⟩
      rw [hr.samples_eq]
      exact List.mem_cons_of_mem _ hmem
    · rw [hr.nodes_find?]
      by_cases hn : s.nodeID = n
      · subst hn
        have hrow := h.rows s.nodeID
        rw [hr.registered] at hrow
        rw [if_pos rfl]
        cases hrow' : st'.nodes.find? s.nodeID with
        | none => rw [hrow'] at hrow; cases hrow
        | some row =>
          rw [hrow'] at hrow
          cases hrow with
          | some hbehind => exact .some (hbehind.backlog hs hb hr)
      · rw [if_neg hn]
        exact h.tail.rows n

theorem Shadows.live (h : Shadows ((now, s) :: rest) st st') (hc : ∀ n, Consistent st n)
    (hc' : ∀ n, Consistent st' n) (hreplay : ¬ Replayed st s) :
    Shadows rest (ingested now st s) (ingested now st' s) := by
  have hfresh : ¬ st.samples.HasKey (sampleRow s).key := fun hk => hreplay (.inr hk)
  have hrow := h.rows s.nodeID
  have hstorable : Storable now st' s ↔ Storable now st s := by
    refine and_congr_right (fun _ => and_congr (iff_of_true (fun hk => hfresh (h.samples _ hk))
      hfresh) ?_)
    rw [← not_iff_not, ← Table.find?_eq_none_iff, ← Table.find?_eq_none_iff]
    generalize st.nodes.find? s.nodeID = row at hrow ⊢
    generalize st'.nodes.find? s.nodeID = row' at hrow ⊢
    cases hrow with
    | some _ => simp
    | none => simp
  by_cases hst : Storable now st s
  · obtain ⟨node, full, tx, hr⟩ := recorded_of_storable (hc _) hst
    obtain ⟨node', full', tx', hr'⟩ := recorded_of_storable (hc' _) (hstorable.mpr hst)
    refine ⟨fun k hk => ?_, fun n => ?_⟩
    · obtain ⟨r, hmem, hkey⟩ := hk
      rw [hr'.samples_eq] at hmem
      rcases List.mem_cons.mp hmem with rfl | hmem
      · refine ⟨_, ?_, hkey⟩
        rw [hr.samples_eq]
        exact List.mem_cons_self
      · obtain ⟨r', hmem', hkey'⟩ := h.samples k ⟨r, hmem, hkey⟩
        refine ⟨r', ?_, hkey'⟩
        rw [hr.samples_eq]
        exact List.mem_cons_of_mem _ hmem'
    · rw [hr.nodes_find?, hr'.nodes_find?]
      by_cases hn : s.nodeID = n
      · subst hn
        rw [if_pos rfl, if_pos rfl]
        rw [hr.registered, hr'.registered] at hrow
        cases hrow with
        | some hbehind => exact .some (hbehind.live hr hr')
      · rw [if_neg hn, if_neg hn]
        exact h.tail.rows n
  · rw [ingested_of_not_storable hst, ingested_of_not_storable (fun hst' => hst (hstorable.mp hst'))]
    exact h.tail

theorem Shadows.received (h : Shadows calls st st') (hs : Steady calls)
    (hc : ∀ n, Consistent st n) (hc' : ∀ n, Consistent st' n) (n : String) :
    receivedAt (runIngest st calls) n = receivedAt (runIngest st' (withoutReplays st calls)) n := by
  induction calls generalizing st st' with
  | nil =>
    have hrows := h.rows n
    change (st.nodes.find? n).map _ = (st'.nodes.find? n).map _
    generalize st.nodes.find? n = row at hrows ⊢
    generalize st'.nodes.find? n = row' at hrows ⊢
    cases hrows with
    | some hrow => exact congrArg some hrow.received
    | none => rfl
  | cons call rest ih =>
    obtain ⟨now, s⟩ := call
    have hnext : ∀ n, Consistent (ingested now st s) n := fun n => (hc n).ingested now s
    change receivedAt (runIngest (ingested now st s) rest) n = _
    rw [withoutReplays]
    by_cases hreplay : Replayed st s
    · rw [if_pos hreplay]
      exact ih (h.replayed hs hreplay) hs.tail hnext hc'
    · rw [if_neg hreplay]
      exact ih (h.live hc hc' hreplay) hs.tail hnext (fun n => (hc' n).ingested now s)

theorem Steady.of_prefix {early : List (ℤ × Snapshot)} (h : Steady calls) (he : early <+: calls) :
    Steady early := by
  constructor
  · exact h.clock.sublist (he.sublist.map Prod.fst)
  · exact fun c hc c' hc' => h.interval c (he.subset hc) c' (he.subset hc')
  · exact fun c hc => h.backlog c (he.subset hc)

/-- The backlog of a client and repeated uploads, in any order and any number, change no time of
reception at any point of a run. -/
theorem received_without_replays (nodes : Table NodeRow NodeRow.id) (history : List Event)
    (calls : List (ℤ × Snapshot)) (h : Steady calls) (early : List (ℤ × Snapshot))
    (he : early <+: calls) (n : String) :
    receivedAt (runIngest (run (freshStore nodes) history) early) n =
      receivedAt (runIngest (run (freshStore nodes) history)
        (withoutReplays (run (freshStore nodes) history) early)) n := by
  have hc := consistent_run nodes history
  refine Shadows.received ⟨fun _ hk => hk, fun n => ?_⟩ (h.of_prefix he) hc hc n
  cases (run (freshStore nodes) history).nodes.find? n with
  | some row => exact .some ⟨rfl, le_rfl, .inl rfl⟩
  | none => exact .none

/-- A live report, an older one from the backlog and a repetition. -/
def backlogCalls : List (ℤ × Snapshot) :=
  [(1700000042000, sample "n" 2 1700000041000),
    (1700000043000, { sample "n" 1 1700000001000 with backfill := true }),
    (1700000044000, sample "n" 2 1700000041000)]

theorem received_without_replays_backlog :
    receivedAt (runIngest (run (freshStore (Hub.node "n")) []) backlogCalls) "n" =
      receivedAt (runIngest (run (freshStore (Hub.node "n")) [])
        (withoutReplays (run (freshStore (Hub.node "n")) []) backlogCalls)) "n" :=
  received_without_replays (Hub.node "n") [] backlogCalls
    ⟨by decide, by decide, by decide⟩ backlogCalls List.prefix_rfl "n"

end CardScope.Live
