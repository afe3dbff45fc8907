import CardScope.Ingestion.Intake

/-! # The live state of a node

The live state is that of the newest report, whatever the order of arrival. Cards that the newest
report does not list stay in it, marked as missing or as not queried.
-/

namespace CardScope.Live
open Library Model Hub Ingestion

variable {n : String} {now : ℤ} {st tx st' : Store} {s full : Snapshot} {node row : NodeRow}
  {g : GPU}

/-- A card that the live state keeps although the report `s` does not list it. -/
structure Kept (s : Snapshot) (old : Snapshot) (g : GPU) : Prop where
  unlisted : ¬ s.Lists g.uuid
  known : old.Lists g.uuid
  processes : g.processes = []
  processStatus : g.processStatus = "unknown"
  status : g.status = if s.gpuStatus = "ok" then "not_detected" else "query_failed"

theorem carriedOver_kept (h : g ∈ carriedOver tx node s) : Kept s node.snapshot g := by
  unfold carriedOver at h
  split_ifs at h with hok
  · exact absurd h List.not_mem_nil
  · obtain ⟨c, hc, rfl⟩ := List.mem_map.mp h
    obtain ⟨hc, hcarries⟩ := List.mem_filter.mp hc
    exact ⟨(of_decide_eq_true hcarries).1, ⟨c, hc, rfl⟩, rfl, rfl, (if_neg hok).symm⟩

theorem missingGPUs_kept (h : g ∈ missingGPUs s node) : Kept s node.snapshot (notDetected g) := by
  unfold missingGPUs at h
  split_ifs at h with hok
  · obtain ⟨hg, hl⟩ := List.mem_filter.mp h
    exact ⟨of_decide_eq_true hl, ⟨g, hg, rfl⟩, rfl, rfl, (if_pos hok).symm⟩
  · exact absurd h List.not_mem_nil

/-- What replaces the live state: the report itself, and the cards kept from before. -/
theorem replacement_spec (h : Recorded now st s node full tx st') :
    replacement full node = { s with gpus := (replacement full node).gpus } ∧
      (∀ g ∈ s.gpus, g ∈ (replacement full node).gpus) ∧
      ∀ g ∈ (replacement full node).gpus, g ∈ s.gpus ∨ Kept s node.snapshot g := by
  have hfull := h.full_eq
  have hstatus : full.gpuStatus = s.gpuStatus := by rw [hfull]
  refine ⟨by rw [hfull]; rfl, fun g hg => ?_, fun g hg => ?_⟩
  · apply List.mem_append_left _
    rw [h.gpus_full]
    exact List.mem_append_left _ hg
  · rcases List.mem_append.mp hg with hg | hg
    · rw [h.gpus_full] at hg
      exact (List.mem_append.mp hg).imp_right carriedOver_kept
    · obtain ⟨c, hc, rfl⟩ := List.mem_map.mp hg
      have hkept := missingGPUs_kept hc
      refine .inr ⟨fun hl => hkept.unlisted ((h.full_lists _).mpr (.inl hl)), hkept.known, rfl, rfl, ?_⟩
      rw [← hstatus]
      exact hkept.status

theorem lists_of_recorded (hc : Consistent st s.nodeID) (h : Recorded now st s node full tx st')
    {u : String} (hu : node.snapshot.Lists u) : (refreshedRow now full node).snapshot.Lists u := by
  obtain ⟨row, hrow, -, hlists⟩ := h.live
  obtain rfl : refreshedRow now full node = row := Option.some.inj (h.row.symm.trans hrow)
  rw [hlists]
  split_ifs with hnewer
  · by_cases hok : s.gpuStatus = "ok"
    · exact .inr ⟨hok, hu⟩
    · obtain ⟨g, hg, rfl⟩ := hu
      obtain ⟨r, hr, hk, hfirst⟩ := hc.live_gpu node h.node_mem.1 h.node_mem.2 g hg
      refine .inl ((h.full_lists _).mpr (.inr ⟨hok, ⟨g, hg, rfl⟩, r, ?_, hfirst.trans hnewer.le⟩))
      exact Table.find?_eq_some.mpr ⟨hr, hk⟩
  · exact hu

/-- Over any uploads the time of the live state does not run back and no card leaves it; without a
newer report of the node it stays as it is. -/
theorem live_runIngest (calls : List (ℤ × Snapshot)) (hc : Consistent st n)
    (hrow : st.nodes.find? n = some row) : ∃ row', (runIngest st calls).nodes.find? n = some row' ∧
      row.sampleAt ≤ row'.sampleAt ∧ (∀ u, row.snapshot.Lists u → row'.snapshot.Lists u) ∧
      ((∀ call ∈ calls, call.2.nodeID = n → call.2.atMs ≤ row.sampleAt) →
        row'.sampleAt = row.sampleAt ∧ row'.snapshot = row.snapshot) := by
  induction calls generalizing st row with
  | nil => exact ⟨row, hrow, le_rfl, fun u hu => hu, fun _ => ⟨rfl, rfl⟩⟩
  | cons call rest ih =>
    obtain ⟨now, s⟩ := call
    have hstep : ∃ row', (ingested now st s).nodes.find? n = some row' ∧
        row.sampleAt ≤ row'.sampleAt ∧ (∀ u, row.snapshot.Lists u → row'.snapshot.Lists u) ∧
        ((s.nodeID = n → s.atMs ≤ row.sampleAt) →
          row'.sampleAt = row.sampleAt ∧ row'.snapshot = row.snapshot) := by
      rcases ingested_cases now st s with heq | ⟨node, full, tx, hr⟩
      · rw [heq]
        exact ⟨row, hrow, le_rfl, fun u hu => hu, fun _ => ⟨rfl, rfl⟩⟩
      · rw [hr.nodes_find?]
        by_cases hn : s.nodeID = n
        · subst hn
          obtain rfl : node = row := Option.some.inj (hr.registered.symm.trans hrow)
          refine ⟨_, if_pos rfl, ?_, fun u => lists_of_recorded hc hr, fun hle => ?_⟩
          · rw [refreshedRow_sampleAt]
            exact le_max_left _ _
          · have hat := hle rfl
            rw [refreshedRow_sampleAt, refreshedRow_snapshot, hr.atMs_full, max_eq_left hat,
              if_neg (not_lt.mpr hat)]
            exact ⟨rfl, rfl⟩
        · rw [if_neg hn]
          exact ⟨row, hrow, le_rfl, fun u hu => hu, fun _ => ⟨rfl, rfl⟩⟩
    obtain ⟨row', hrow', hle, hlists, hquiet⟩ := hstep
    obtain ⟨row'', hrow'', hle', hlists', hquiet'⟩ := ih (hc.ingested now s) hrow'
    refine ⟨row'', hrow'', hle.trans hle', fun u hu => hlists' u (hlists u hu), fun hall => ?_⟩
    obtain ⟨hat, hsnap⟩ := hquiet (hall (now, s) List.mem_cons_self)
    obtain ⟨hat', hsnap'⟩ := hquiet' (fun call hcall hn => by
      rw [hat]
      exact hall call (List.mem_cons_of_mem _ hcall) hn)
    exact ⟨hat'.trans hat, hsnap'.trans hsnap⟩

theorem sampleAt_lt {nodes : Table NodeRow NodeRow.id} {calls : List (ℤ × Snapshot)}
    (h : Intake nodes n calls) {t : ℤ} (ht : 0 < t) (hall : ∀ call ∈ calls, call.2.atMs < t) :
    ∃ row, (runIngest (freshStore nodes) calls).nodes.find? n = some row ∧ row.sampleAt < t := by
  have hlt : ∀ s ∈ calls.map Prod.snd, s.atMs < t := by
    intro s hs
    obtain ⟨call, hcall, rfl⟩ := List.mem_map.mp hs
    exact hall call hcall
  refine h.induction (I := fun _ st => ∃ row, st.nodes.find? n = some row ∧ row.sampleAt < t) ?_ ?_
  · obtain ⟨row, hrow, rfl⟩ := h.registered
    exact ⟨row.unreported, Table.find?_eq_some.mpr ⟨List.mem_map_of_mem hrow, rfl⟩, ht⟩
  · rintro done now s st node full tx st' hdone hn - - hr ⟨row, hrow, hat⟩
    subst hn
    obtain rfl : node = row := Option.some.inj (hr.registered.symm.trans hrow)
    refine ⟨_, hr.row, ?_⟩
    rw [refreshedRow_sampleAt, hr.atMs_full]
    exact max_lt hat (hlt s (hdone.subset (by simp)))

/-- The live state of a node is that of its newest report, with the known cards that it does not
list, without processes and marked by the result of its enumeration. -/
theorem live_state_of_newest (nodes : Table NodeRow NodeRow.id) (n : String)
    (early late : List (ℤ × Snapshot)) (now : ℤ) (s : Snapshot)
    (h : Intake nodes n (early ++ (now, s) :: late))
    (htimes : ((early ++ (now, s) :: late).map (fun call => call.2.atMs)).Nodup)
    (hnewest : ∀ call ∈ early ++ (now, s) :: late, call.2.atMs ≤ s.atMs) :
    ∃ old row, (runIngest (freshStore nodes) early).nodes.find? n = some old ∧
      (runIngest (freshStore nodes) (early ++ (now, s) :: late)).nodes.find? n = some row ∧
      (0 < s.atMs → row.sampleAt = s.atMs ∧ row.snapshot = { s with gpus := row.snapshot.gpus } ∧
        (∀ g ∈ s.gpus, g ∈ row.snapshot.gpus) ∧
        ∀ g ∈ row.snapshot.gpus, g ∈ s.gpus ∨ Kept s old.snapshot g) ∧
      (row.snapshot.gpus.map GPU.uuid).Nodup ∧
      ∀ part, part <+: early ++ (now, s) :: late →
        ∀ row', (runIngest (freshStore nodes) part).nodes.find? n = some row' →
          ∀ u, row'.snapshot.Lists u → row.snapshot.Lists u := by
  have hpart : Intake nodes n early := h.of_prefix (List.prefix_append _ _)
  obtain ⟨node, full, tx, hr⟩ := h.recorded
  obtain rfl : s.nodeID = n := h.node (now, s) (by simp)
  have hrun : runIngest (freshStore nodes) (early ++ (now, s) :: late) =
      runIngest (ingested now (runIngest (freshStore nodes) early) s) late := runIngest_append _ _ _
  have hc := consistent_runIngest (consistent_freshStore nodes s.nodeID) early
  obtain ⟨row, hrow, hle, hkeeps, hquiet⟩ := live_runIngest late (hc.ingested now s) hr.row
  have hfinal := consistent_runIngest (hc.ingested now s) late
  refine ⟨node, row, hr.registered, by rw [hrun]; exact hrow, fun hpos => ?_, ?_, ?_⟩
  · -- the live state is older than the newest report when it arrives, and nothing comes after
    have htime : ∀ call ∈ early, call.2.atMs < s.atMs := by
      intro call hcall
      rw [List.map_append, List.nodup_append] at htimes
      exact lt_of_le_of_ne (hnewest call (by simp [hcall]))
        (htimes.2.2 _ (List.mem_map_of_mem hcall) _ (by simp))
    obtain ⟨old, hold, hlt⟩ := sampleAt_lt hpart hpos htime
    obtain rfl : node = old := Option.some.inj (hr.registered.symm.trans hold)
    have hnewer : full.atMs > node.sampleAt := by rw [hr.atMs_full]; exact hlt
    have hat : (refreshedRow now full node).sampleAt = s.atMs := by
      rw [refreshedRow_sampleAt, hr.atMs_full, max_eq_right hlt.le]
    obtain ⟨hrowAt, hrowSnapshot⟩ := hquiet (fun call hcall _ => by
      rw [hat]
      exact hnewest call (by simp [hcall]))
    rw [refreshedRow_snapshot, if_pos hnewer] at hrowSnapshot
    rw [hrowSnapshot]
    exact ⟨hrowAt.trans hat, replacement_spec hr⟩
  · obtain ⟨hmem, hid⟩ := Table.find?_eq_some.mp hrow
    exact hfinal.live_nodup row hmem hid
  · rintro part ⟨rest, hrest⟩ row' hrow' u hu
    have hsplit : runIngest (freshStore nodes) (early ++ (now, s) :: late) =
        runIngest (runIngest (freshStore nodes) part) rest := by
      rw [← hrest]
      exact runIngest_append _ _ _
    obtain ⟨row'', hrow'', -, hlists, -⟩ := live_runIngest rest
      (consistent_runIngest (consistent_freshStore nodes s.nodeID) part) hrow'
    rw [← hsplit, hrun, hrow] at hrow''
    obtain rfl : row = row'' := Option.some.inj hrow''
    exact hlists u hu

/-- A failed enumeration after a report of its card. -/
theorem live_state_of_newest_outage : ∃ row, (runIngest (freshStore (Hub.node "n"))
    [(1700000071000, sample "n" 1 1700000041000),
      (1700000071000, failedSample "n" 2 1700000046000)]).nodes.find? "n" = some row ∧
    row.sampleAt = 1700000046000 := by
  obtain ⟨old, row, -, hrow, hlive, -, -⟩ := live_state_of_newest (Hub.node "n") "n"
    [(1700000071000, sample "n" 1 1700000041000)] [] 1700000071000
    (failedSample "n" 2 1700000046000) ⟨by decide, by decide, by decide +kernel, by decide⟩
    (by decide) (by decide)
  exact ⟨row, hrow, (hlive (by decide)).1⟩

/-- The time of the live state starts at zero, so that reports from before do not reach it. -/
theorem live_state_before_epoch : ¬ ∀ (nodes : Table NodeRow NodeRow.id) (n : String)
    (early late : List (ℤ × Snapshot)) (now : ℤ) (s : Snapshot),
    Intake nodes n (early ++ (now, s) :: late) →
    ((early ++ (now, s) :: late).map (fun call => call.2.atMs)).Nodup →
    (∀ call ∈ early ++ (now, s) :: late, call.2.atMs ≤ s.atMs) →
    ∃ row, (runIngest (freshStore nodes) (early ++ (now, s) :: late)).nodes.find? n = some row ∧
      row.sampleAt = s.atMs := by
  intro h
  obtain ⟨row, hrow, hat⟩ := h (Hub.node "n") "n" [] [] 0 (sample "n" 1 (-1000))
    ⟨by decide, by decide, by decide +kernel, by decide⟩ (by decide) (by decide)
  have hzero : (runIngest (freshStore (Hub.node "n")) [(0, sample "n" 1 (-1000))]).nodes.rows.all
      (fun row => row.sampleAt == 0) = true := by decide +kernel
  have hmem := List.all_eq_true.mp hzero row (Table.find?_eq_some.mp hrow).1
  rw [hat] at hmem
  exact absurd hmem (by decide)

end CardScope.Live
