import CardScope.Agent.Delivery
import CardScope.Arrival.OrderIndependence
import CardScope.Isolation.Independence
import CardScope.Retention.Transparency

/-! # The hours of a client

On its way to the rollups a sample waits in a queue, is posted late and more than once, and meets
other samples of the same client, uploads of other nodes and cleanups in any order. What the hub
holds for the client in the end is what it would hold if it had got each stored sample at the moment
at which it was taken, and nothing else.
-/

namespace CardScope.Arrival
open Library Model Hub Ingestion Integration Agent

/-- A hub that gets each sample at the moment at which it is taken. -/
def direct (nodes : Table NodeRow NodeRow.id) (samples : List Snapshot) : Store :=
  runIngest (freshStore nodes) (samples.map (fun s => (s.atMs, s)))

def stored (node : String) (st : State) : List Snapshot :=
  st.produced.filter (fun s => s.identity ∈ (uploads node st.log).map Snapshot.identity)

section Transactions

variable {c : Setup} {st : State} {now : ℤ} {u : Snapshot}

theorem valid_log (c : Setup) (actions : List Action) {now : ℤ} {u : Snapshot}
    (h : Event.ingest now u ∈ (c.after actions).log) : validate now u = .ok () := by
  have hrun := foldl_invariant (act c.config)
    (fun _ st => ∀ now u, Event.ingest now u ∈ st.log → validate now u = .ok ())
    (by
      intro a _ st ih now u hu
      rcases act_log c.config st a with heq | ⟨now', heq⟩ | ⟨now', v, hv, heq⟩
      · rw [heq] at hu
        exact ih now u hu
      · rw [heq, List.mem_append, List.mem_singleton] at hu
        exact ih now u (hu.resolve_right (by simp))
      · rw [heq, List.mem_append, List.mem_singleton] at hu
        rcases hu with hu | hu
        · exact ih now u hu
        · cases hu
          exact hv)
    actions c.start (fun _ _ hu => absurd hu List.not_mem_nil)
  exact hrun now u h

end Transactions

section Node

variable {n : String} {log : List Event}

/-- The transactions that store a sample of the node, with the readings of the hub's clock. -/
def calls (n : String) (log : List Event) : List (ℤ × Snapshot) :=
  log.filterMap (fun e => match e with
    | .ingest now u => if u.nodeID = n then some (now, u) else none
    | .prune _ => none)

theorem calls_ingest (n : String) (now : ℤ) (u : Snapshot) (log : List Event) :
    calls n (.ingest now u :: log) =
      if u.nodeID = n then (now, u) :: calls n log else calls n log := by
  by_cases hn : u.nodeID = n <;> simp [calls, hn]

theorem calls_prune (n : String) (now : ℤ) (log : List Event) :
    calls n (.prune now :: log) = calls n log := rfl

theorem mem_calls {call : ℤ × Snapshot} :
    call ∈ calls n log ↔ .ingest call.1 call.2 ∈ log ∧ call.2.nodeID = n := by
  induction log with
  | nil => simp [calls]
  | cons e log ih =>
    cases e with
    | prune now => simp [calls_prune, ih]
    | ingest now u =>
      rw [calls_ingest]
      by_cases hn : u.nodeID = n
      · simp only [hn, if_true, List.mem_cons, ih, Event.ingest.injEq, Prod.ext_iff]
        constructor
        · rintro (⟨rfl, rfl⟩ | ⟨hmem, hnode⟩)
          · exact ⟨.inl ⟨rfl, rfl⟩, hn⟩
          · exact ⟨.inr hmem, hnode⟩
        · rintro ⟨⟨rfl, rfl⟩ | hmem, hnode⟩
          · exact .inl ⟨rfl, rfl⟩
          · exact .inr ⟨hmem, hnode⟩
      · simp only [hn, if_false, List.mem_cons, ih, Event.ingest.injEq]
        constructor
        · exact fun ⟨hmem, hnode⟩ => ⟨.inr hmem, hnode⟩
        · rintro ⟨⟨-, rfl⟩ | hmem, hnode⟩
          · exact absurd hnode hn
          · exact ⟨hmem, hnode⟩

theorem map_calls (n : String) (log : List Event) : (calls n log).map Prod.snd = uploads n log := by
  induction log with
  | nil => rfl
  | cons e log ih =>
    cases e with
    | prune now => exact ih
    | ingest now u =>
      rw [calls_ingest]
      by_cases hn : u.nodeID = n
      · simpa [uploads, hn] using ih
      · simpa [uploads, hn] using ih

theorem filter_concerns (n : String) (log : List Event) :
    (log.filter (Isolation.concerns n)).filter Retention.isUpload =
      (calls n log).map (fun call => Event.ingest call.1 call.2) := by
  induction log with
  | nil => rfl
  | cons e log ih =>
    cases e with
    | prune now => simpa [Isolation.concerns, Retention.isUpload, calls_prune] using ih
    | ingest now u =>
      rw [calls_ingest]
      by_cases hn : u.nodeID = n
      · rw [if_pos hn, List.filter_cons_of_pos (by simp [Isolation.concerns, hn]),
          List.filter_cons_of_pos (by rfl), ih, List.map_cons]
      · rw [if_neg hn, List.filter_cons_of_neg (by simp [Isolation.concerns, hn]), ih]

theorem cleanups_concerns (n : String) (log : List Event) :
    Retention.cleanups (log.filter (Isolation.concerns n)) = Retention.cleanups log := by
  induction log with
  | nil => rfl
  | cons e log ih =>
    cases e with
    | prune now =>
      rw [List.filter_cons_of_pos (by rfl)]
      exact congrArg (now :: ·) ih
    | ingest now u =>
      by_cases hn : u.nodeID = n
      · rw [List.filter_cons_of_pos (by simp [Isolation.concerns, hn])]
        exact ih
      · rw [List.filter_cons_of_neg (by simp [Isolation.concerns, hn])]
        exact ih

theorem uploads_concerns (n : String) (log : List Event) :
    Retention.uploads (log.filter (Isolation.concerns n)) = uploads n log := by
  induction log with
  | nil => rfl
  | cons e log ih =>
    cases e with
    | prune now => exact ih
    | ingest now u =>
      by_cases hn : u.nodeID = n
      · rw [List.filter_cons_of_pos (by simp [Isolation.concerns, hn])]
        simpa [uploads, Retention.uploads, hn] using ih
      · rw [List.filter_cons_of_neg (by simp [Isolation.concerns, hn])]
        simpa [uploads, hn] using ih

theorem along_of_nodup {earlier events : List Event}
    (hnew : ∀ s ∈ Retention.uploads events, ∀ s' ∈ Retention.uploads earlier,
      s'.identity ≠ s.identity)
    (h : ((Retention.uploads events).map Snapshot.identity).Nodup) :
    Along (fun earlier e => e :: earlier) (fun earlier e => ¬ Retention.ReusesDeleted earlier e)
      earlier events := by
  induction events generalizing earlier with
  | nil => exact trivial
  | cons e rest ih =>
    cases e with
    | prune now => exact ⟨not_false, ih hnew h⟩
    | ingest now s =>
      change (s.identity :: (Retention.uploads rest).map Snapshot.identity).Nodup at h
      obtain ⟨hs, hrest⟩ := List.nodup_cons.mp h
      refine ⟨?_, ih ?_ hrest⟩
      · rintro ⟨s', hs', hid, -⟩
        exact hnew s List.mem_cons_self s' hs' hid
      · intro t ht s' hs' hid
        rcases List.mem_cons.mp hs' with rfl | hs'
        · exact hs (List.mem_map.mpr ⟨t, ht, hid.symm⟩)
        · exact hnew t (List.mem_cons_of_mem _ ht) s' hs' hid

theorem ofNode_freshStore (n : String) (nodes : Table NodeRow NodeRow.id) :
    Isolation.ofNode n (freshStore nodes) = freshStore (nodes.only (fun id => id = n)) := by
  refine Store.ext rfl rfl rfl ?_ rfl rfl rfl rfl rfl rfl
  apply Table.ext_rows
  change (nodes.rows.map NodeRow.unreported).filter _ = (nodes.rows.filter _).map NodeRow.unreported
  rw [List.filter_map]
  rfl

theorem rollup_ofNode {k : RollupKey} (hk : k.node = n) (st : Store) :
    (Isolation.ofNode n st).rollup k = st.rollup k := by
  have hfind : (Isolation.ofNode n st).rollups.find? k = st.rollups.find? k :=
    Table.find?_only (q := fun k : RollupKey => k.node = n) (decide_eq_true hk)
  rw [Store.rollup, hfind, Store.rollup]

/-- Cleanups that expire none of the rollups in question leave their sum as it would be without
them. -/
theorem rollupSum_withoutCleanups (nodes : Table NodeRow NodeRow.id) (events : List Event)
    (q : RollupKey → Bool) (hclock : (events.map Retention.clock).Pairwise (· ≤ ·))
    (hids : ((Retention.uploads events).map Snapshot.identity).Nodup)
    (hkept : ∀ now ∈ Retention.cleanups events, ∀ k, q k → expired now k = false) :
    (run (freshStore nodes) events).rollupSum q =
      (run (freshStore nodes) (events.filter Retention.isUpload)).rollupSum q := by
  have hsame : Retention.Simulates [] q (freshStore nodes) (freshStore nodes) :=
    ⟨rfl, rfl, fun r => iff_of_false (Table.not_mem_empty r) (fun h => Table.not_mem_empty r h.1),
      rfl, fun _ _ => rfl, rfl⟩
  have hstart : Retention.InStep q events (freshStore nodes) ([], freshStore nodes) :=
    { simulates := hsame
      consistent := consistent_freshStore nodes
      consistent_full := consistent_freshStore nodes
      drawn := drawn_freshStore _ nodes
      drawn_full := drawn_freshStore _ nodes
      uploaded := fun r hr => absurd hr (Table.not_mem_empty r)
      reuse := along_of_nodup (fun _ _ _ hs => absurd hs List.not_mem_nil) hids
      clock_rest := hclock
      clock_earlier := fun _ hnow => absurd hnow List.not_mem_nil
      retained := hkept }
  have hend := foldl_simulation step Retention.fullStep (Retention.InStep q)
    (fun e rest st x h => h.step) events _ _ hstart
  have hsums := hend.simulates.rollups
  rwa [Retention.foldl_fullStep] at hsums

/-- The rollups of a node are those of its own uploads, also when other nodes upload and cleanups
run in between. -/
theorem rollup_run (nodes : Table NodeRow NodeRow.id) {k : RollupKey} (hk : k.node = n)
    (hclock : (log.map Retention.clock).Pairwise (· ≤ ·))
    (hids : ((uploads n log).map Snapshot.identity).Nodup)
    (hkept : ∀ now ∈ Retention.cleanups log, expired now k = false) :
    (run (freshStore nodes) log).rollup k =
      (runIngest (freshStore (nodes.only (fun id => id = n))) (calls n log)).rollup k := by
  have hedges : Isolation.OwnEdges (freshStore nodes) := fun e he => absurd he (Table.not_mem_empty e)
  have hsorted : ((log.filter (Isolation.concerns n)).map Retention.clock).Pairwise (· ≤ ·) :=
    hclock.sublist (List.filter_sublist.map _)
  have hcleaned := rollupSum_withoutCleanups (nodes.only (fun id => id = n))
    (log.filter (Isolation.concerns n)) (fun l => l = k) hsorted (by rwa [uploads_concerns])
    (by
      intro now hnow l hl
      rw [cleanups_concerns] at hnow
      rw [of_decide_eq_true hl]
      exact hkept now hnow)
  rw [Store.rollupSum_eq, Store.rollupSum_eq, filter_concerns, run_map_ingest] at hcleaned
  rw [← rollup_ofNode hk, Isolation.run_ofNode hedges, ofNode_freshStore, hcleaned]

end Node

section Marks

variable {n u : String} {q : RollupKey → Bool} {reports : List Snapshot}

def unmarked (s : Snapshot) : Snapshot := { s with backfill := false }

/-- What the timelines of a card add when no gap matters. -/
def timelineSum (n u : String) (q : RollupKey → Bool) (reports : List Snapshot) : Measures :=
  ∑ b ∈ (reports.map Snapshot.bootID).toFinset, bootIntegral n u q reports [] b

theorem timelineSum_perm {reports' : List Snapshot} (hp : reports.Perm reports')
    (htimes : (reports.map Snapshot.atMs).Nodup) :
    timelineSum n u q reports = timelineSum n u q reports' := by
  unfold timelineSum
  rw [List.toFinset_eq_of_perm _ _ (hp.map Snapshot.bootID)]
  exact Finset.sum_congr rfl (fun b _ => bootIntegral_perm hp htimes [] b)

theorem timelineSum_unmarked (n u : String) (q : RollupKey → Bool) (reports : List Snapshot) :
    timelineSum n u q (reports.map unmarked) = timelineSum n u q reports := by
  have hchron : chronological Snapshot.atMs (reports.map unmarked) =
      (chronological Snapshot.atMs reports).map unmarked :=
    (List.map_insertionSort _ _ unmarked reports (fun _ _ _ _ => Iff.rfl)).symm
  unfold timelineSum
  rw [List.map_map]
  refine Finset.sum_congr rfl (fun b _ => ?_)
  rw [bootIntegral, hchron, List.filter_map, chainSum_map, bootIntegral]
  congr 1
  exact List.filter_congr (fun s _ => decide_eq_decide.mpr (by
    simp [Seen, unmarked, Snapshot.Lists]))

theorem uninterrupted_unmarked : Uninterrupted (reports.map unmarked) ↔ Uninterrupted reports := by
  unfold Uninterrupted Interrupts
  simp only [List.forall_mem_map]
  rfl

theorem uninterrupted_of_perm {reports' : List Snapshot} (h : Uninterrupted reports)
    (hp : reports.Perm reports') : Uninterrupted reports' := by
  unfold Uninterrupted Interrupts at *
  simpa only [hp.mem_iff] using h

theorem validate_self {now : ℤ} {s : Snapshot} (h : validate now s = .ok ()) :
    validate s.atMs s = .ok () := by
  have hlimits : invalidSnapshot now s = false := by
    unfold validate at h
    by_contra hinvalid
    rw [if_pos (by simpa using hinvalid)] at h
    cases h
  have hself : invalidSnapshot s.atMs s = false := by
    simp only [invalidSnapshot, Bool.or_eq_false_iff, decide_eq_false_iff_not] at hlimits ⊢
    grind
  unfold validate at h ⊢
  rw [hlimits] at h
  rw [hself]
  exact h

end Marks

section Client

variable {c : Setup} {st : State} {reports : List Snapshot}

/-- Without their marks, the stored uploads are the samples that were stored. -/
theorem uploads_perm (h : Inv c st)
    (hids : ((uploads c.config.nodeID st.log).map Snapshot.identity).Nodup) :
    ((uploads c.config.nodeID st.log).map unmarked).Perm
      ((stored c.config.nodeID st).map unmarked) := by
  have hnodup : ∀ l : List Snapshot, (l.map Snapshot.identity).Nodup → (l.map unmarked).Nodup := by
    intro l hl
    apply List.Nodup.of_map Snapshot.identity
    rw [List.map_map]
    exact hl
  have hstored : ((stored c.config.nodeID st).map Snapshot.identity).Nodup :=
    h.distinct.sublist (List.filter_sublist.map _)
  refine (List.perm_ext_iff_of_nodup (hnodup _ hids) (hnodup _ hstored)).mpr (fun x => ?_)
  have hcopy : ∀ u ∈ uploads c.config.nodeID st.log, ∃ s ∈ st.produced, ∃ late,
      u = { s with backfill := late } := by
    intro u hu
    obtain ⟨now, hlog, hn⟩ := mem_uploads.mp hu
    obtain ⟨s, hs, late, heq, -⟩ := h.requests u (h.log now u hlog hn)
    exact ⟨s, hs, late, heq⟩
  rw [List.mem_map, List.mem_map]
  constructor
  · rintro ⟨u, hu, rfl⟩
    obtain ⟨s, hs, late, rfl⟩ := hcopy u hu
    exact ⟨s, List.mem_filter.mpr ⟨hs, decide_eq_true (List.mem_map.mpr ⟨_, hu, rfl⟩)⟩, rfl⟩
  · rintro ⟨s, hs, rfl⟩
    obtain ⟨hs, hid⟩ := List.mem_filter.mp hs
    obtain ⟨u, hu, hid⟩ := List.mem_map.mp (of_decide_eq_true hid)
    obtain ⟨t, ht, late, rfl⟩ := hcopy u hu
    obtain rfl : t = s := h.eq_of_identity ht hs hid
    exact ⟨_, hu, rfl⟩

theorem batch_of_unmarked {nodes nodes' : Table NodeRow NodeRow.id} {n : String}
    {reports' : List Snapshot} (h : Batch nodes n reports) (hreg : nodes'.HasKey n)
    (hp : (reports.map unmarked).Perm (reports'.map unmarked)) : Batch nodes' n reports' := by
  have hcopy : ∀ s ∈ reports', ∃ u ∈ reports, unmarked u = unmarked s := by
    intro s hs
    exact List.mem_map.mp (hp.mem_iff.mpr (List.mem_map_of_mem hs))
  have hkeys : ∀ {β : Type} (f : Snapshot → β), (∀ s, f (unmarked s) = f s) →
      (reports.map f).Perm (reports'.map f) := by
    intro β f hf
    have hmap : ∀ l : List Snapshot, (l.map unmarked).map f = l.map f := by
      intro l
      rw [List.map_map]
      exact List.map_congr_left (fun s _ => hf s)
    rw [← hmap, ← hmap reports']
    exact hp.map f
  constructor
  · exact hreg
  · intro s hs
    obtain ⟨u, hu, heq⟩ := hcopy s hs
    exact (congrArg Snapshot.nodeID heq).symm.trans (h.node u hu)
  · intro s hs
    obtain ⟨u, hu, heq⟩ := hcopy s hs
    obtain ⟨now, hv⟩ := h.accepted u hu
    refine ⟨now, ?_⟩
    change validate now (unmarked s) = .ok ()
    rw [← heq]
    exact hv
  · exact (hkeys Snapshot.identity (fun _ => rfl)).nodup_iff.mp h.identities
  · exact (hkeys Snapshot.atMs (fun _ => rfl)).nodup_iff.mp h.times

theorem arrives_direct {nodes : Table NodeRow NodeRow.id} {n : String} (h : Batch nodes n reports) :
    Arrives reports (reports.map (fun s => (s.atMs, s))) := by
  constructor
  · rw [List.map_map]
    exact .of_eq (List.map_id reports)
  · intro call hcall
    obtain ⟨s, hs, rfl⟩ := List.mem_map.mp hcall
    obtain ⟨now, hv⟩ := h.accepted s hs
    exact validate_self hv

end Client

/-- While the clock of the hub does not go back and no failed report interrupts a card, each rollup
of the client is that of a hub that got the stored samples as they were taken. -/
theorem hours_of_stored (c : Setup) (actions : List Action)
    (hreg : c.nodes.HasKey c.config.nodeID)
    (hclock : ((c.after actions).log.map Retention.clock).Pairwise (· ≤ ·))
    (htimes : ((stored c.config.nodeID (c.after actions)).map Snapshot.atMs).Nodup)
    (hun : Uninterrupted (stored c.config.nodeID (c.after actions))) :
    (∀ k, k.node = c.config.nodeID →
      (∀ now ∈ Retention.cleanups (c.after actions).log, expired now k = false) →
      (c.after actions).hub.rollup k =
        (direct c.nodes (stored c.config.nodeID (c.after actions))).rollup k) ∧
    ((c.after actions).queue.rows = [] → (c.after actions).evicted = [] →
      stored c.config.nodeID (c.after actions) = (c.after actions).produced) := by
  have h := inv_after c actions
  set st := c.after actions
  set n := c.config.nodeID
  have hsteady : Steady st.log := by
    apply steady_of_monotone
    refine (List.pairwise_map.mp hclock).imp (fun {e e'} hle => ?_)
    cases e <;> cases e' <;> exact hle
  have hids := h.once hsteady
  have hperm := uploads_perm h hids
  constructor
  · intro k hk hkept
    have hregistered : (c.nodes.only (fun id => id = n)).HasKey n :=
      (Table.hasKey_only (q := fun id : String => id = n) (decide_eq_true rfl)).mpr hreg
    -- the uploads make a batch, and without their marks they are the stored samples
    have hbatch : Batch (c.nodes.only (fun id => id = n)) n (uploads n st.log) := by
      refine ⟨hregistered, fun u hu => ?_, fun u hu => ?_, hids, ?_⟩
      · obtain ⟨now, -, hnode⟩ := mem_uploads.mp hu
        exact hnode
      · obtain ⟨now, hlog, -⟩ := mem_uploads.mp hu
        exact ⟨now, valid_log c actions hlog⟩
      · have hsame := (hperm.map Snapshot.atMs).nodup_iff
        rw [List.map_map, List.map_map] at hsame
        exact hsame.mpr htimes
    have hbatch' : Batch c.nodes n (stored n st) := batch_of_unmarked hbatch hreg hperm
    have hun' : Uninterrupted (uploads n st.log) := by
      rw [← uninterrupted_unmarked]
      exact uninterrupted_of_perm (uninterrupted_unmarked.mpr hun) hperm.symm
    have harrives : Arrives (uploads n st.log) (calls n st.log) := by
      refine ⟨.of_eq (map_calls n st.log), fun call hcall => ?_⟩
      exact valid_log c actions (mem_calls.mp hcall).1
    rw [h.logged.store, rollup_run c.nodes hk hclock hids hkept,
      hbatch.rollup_of_uninterrupted hun' harrives hk, direct,
      hbatch'.rollup_of_uninterrupted hun (arrives_direct hbatch') hk]
    change timelineSum n k.uuid _ (uploads n st.log) = timelineSum n k.uuid _ (stored n st)
    rw [← timelineSum_unmarked, ← timelineSum_unmarked n k.uuid _ (stored n st)]
    exact timelineSum_perm hperm (by rw [List.map_map]; exact hbatch.times)
  · intro hempty hevicted
    refine List.filter_eq_self.mpr (fun s hs => decide_eq_true ?_)
    rcases h.kept s hs with ⟨f, hf, -⟩ | ⟨now, late, hlog⟩ | ⟨e, he, -⟩
    · rw [Table.mem_def, hempty] at hf
      exact absurd hf List.not_mem_nil
    · exact List.mem_map.mpr ⟨_, mem_uploads.mpr ⟨now, hlog, (h.produced s hs).1⟩, rfl⟩
    · rw [hevicted] at he
      exact absurd he List.not_mem_nil

/-- The response to the first of two samples is lost. A cleanup runs, and the second sample reaches
the hub before the first is posted again. -/
def resent : List Action :=
  enqueue 1700000041000 ++ [.listFiles true, .measure, .measure, .examine 1700000041000,
    .examine 1700000041000] ++ submit 0 1700000042000 1700000042000 ++
    [.giveUp, .cleanup 1700000043000] ++ enqueue 1700000046000 ++
    submit 1 1700000051000 1700000051000 ++ [.receive true, .remove true, .readFile true,
      .post 1700000052000, .serve 2 1700000052000, .receive true, .remove true]

theorem hours_of_stored_resent : (testSetup.after resent).hub.rollup
      ⟨"n", "GPU-test", "", 60000, 1700000040000⟩ =
      (direct (Hub.node "n") (stored "n" (testSetup.after resent))).rollup
        ⟨"n", "GPU-test", "", 60000, 1700000040000⟩ ∧
    stored "n" (testSetup.after resent) = (testSetup.after resent).produced := by
  have h := hours_of_stored testSetup resent (by decide) (by decide +kernel) (by decide +kernel)
    (by decide +kernel)
  exact ⟨h.1 ⟨"n", "GPU-test", "", 60000, 1700000040000⟩ rfl (by decide +kernel),
    h.2 (by decide +kernel) (by decide +kernel)⟩

end CardScope.Arrival
