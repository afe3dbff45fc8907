import CardScope.Agent.System
import CardScope.Ingestion.Points

/-! # The transactions of the hub

The log holds the transactions that had an effect. It tells what is stored, and as long as the
clock of the hub does not go back by the time between the window for uploads and the retention of
sample identities, it holds no sample twice.
-/

namespace CardScope.Agent
open Library Model Hub Ingestion

theorem nodup_map_concat {α β : Type*} {key : α → β} {l : List α} {a : α}
    (h : (l.map key).Nodup) (hnew : key a ∉ l.map key) : ((l ++ [a]).map key).Nodup := by
  rw [List.map_append, List.map_singleton, ← List.concat_eq_append]
  exact List.Nodup.concat hnew h

def uploads (node : String) (log : List Event) : List Snapshot :=
  log.filterMap (fun e => match e with
    | .ingest _ u => if u.nodeID = node then some u else none
    | .prune _ => none)

/-- The upload is not read from the clock more than 23 hours before the cleanup in front of it.
That is what lies between the 25 hours of the window and the 48 hours of the retention. -/
def InStep : Event → Event → Prop
  | .prune earlier, .ingest now _ => earlier ≤ now + 23 * 3600000
  | _, _ => True

instance : DecidableRel InStep
  | .prune earlier, .ingest now _ => inferInstanceAs (Decidable (earlier ≤ now + 23 * 3600000))
  | .prune _, .prune _ => inferInstanceAs (Decidable True)
  | .ingest _ _, _ => inferInstanceAs (Decidable True)

/-- The clock of the hub is never set back far between a cleanup and an upload. -/
def Steady (log : List Event) : Prop := log.Pairwise InStep

instance (log : List Event) : Decidable (Steady log) :=
  inferInstanceAs (Decidable (log.Pairwise InStep))

def Event.reading : Event → ℤ
  | .ingest now _ => now
  | .prune now => now

theorem steady_of_monotone {log : List Event}
    (h : log.Pairwise (fun e e' => Event.reading e ≤ Event.reading e')) : Steady log := by
  refine h.imp (fun {e e'} hle => ?_)
  cases e with
  | ingest now u => exact trivial
  | prune earlier =>
    cases e' with
    | ingest now u =>
      change earlier ≤ now at hle
      change earlier ≤ now + 23 * 3600000
      omega
    | prune now => exact trivial

theorem mem_uploads {node : String} {log : List Event} {u : Snapshot} :
    u ∈ uploads node log ↔ ∃ now, .ingest now u ∈ log ∧ u.nodeID = node := by
  simp only [uploads, List.mem_filterMap]
  constructor
  · rintro ⟨e, he, heq⟩
    cases e with
    | ingest now v =>
      simp only [Option.ite_none_right_eq_some, Option.some.injEq] at heq
      obtain ⟨hn, rfl⟩ := heq
      exact ⟨now, he, hn⟩
    | prune now => cases heq
  · rintro ⟨now, hu, hn⟩
    exact ⟨_, hu, if_pos hn⟩

theorem uploads_append (node : String) (log log' : List Event) :
    uploads node (log ++ log') = uploads node log ++ uploads node log' :=
  List.filterMap_append

theorem uploads_ingest {node : String} {now : ℤ} {u : Snapshot} (hu : u.nodeID = node) :
    uploads node [.ingest now u] = [u] := by
  simp [uploads, hu]

theorem uploads_other {node : String} {now : ℤ} {u : Snapshot} (hu : u.nodeID ≠ node) :
    uploads node [.ingest now u] = [] := by
  simp [uploads, hu]

/-- The store is what the log makes of a fresh one. A row of a sample comes from the log, and the
row of a logged sample is there until a cleanup finds it old. -/
structure Logged (nodes : Table NodeRow NodeRow.id) (hub : Store) (log : List Event) : Prop where
  store : hub = run (freshStore nodes) log
  rows : ∀ r ∈ hub.samples, ∃ now u, .ingest now u ∈ log ∧ sampleRow u = r
  retained : ∀ now u, .ingest now u ∈ log →
    sampleRow u ∈ hub.samples ∨ ∃ p, .prune p ∈ log ∧ u.atMs < rawCutoff p

variable {nodes : Table NodeRow NodeRow.id} {hub hub' : Store} {log : List Event} {now : ℤ}
  {u : Snapshot} {node : NodeRow} {full : Snapshot} {tx : Store}

theorem logged_fresh (nodes : Table NodeRow NodeRow.id) : Logged nodes (freshStore nodes) [] where
  store := rfl
  rows := fun r hr => absurd hr (Table.not_mem_empty r)
  retained := fun _ _ hu => absurd hu List.not_mem_nil

theorem run_append (st : Store) (log : List Event) (e : Event) :
    run st (log ++ [e]) = Hub.step (run st log) e := by
  simp [run]

theorem Logged.record (h : Logged nodes hub log) (hrec : Recorded now hub u node full tx hub')
    (hhub : hub' = ingested now hub u) : Logged nodes hub' (log ++ [.ingest now u]) where
  store := by rw [run_append, ← h.store, hhub]; rfl
  rows := by
    intro r hr
    rw [hrec.samples_eq, Table.mem_insert] at hr
    rcases hr with rfl | hr
    · exact ⟨now, u, by simp, rfl⟩
    · obtain ⟨now', v, hv, hrow⟩ := h.rows r hr
      exact ⟨now', v, List.mem_append_left _ hv, hrow⟩
  retained := by
    intro now' v hv
    rw [hrec.samples_eq]
    rcases List.mem_append.mp hv with hv | hv
    · rcases h.retained now' v hv with hrow | ⟨p, hp, hold⟩
      · exact .inl (Table.mem_insert.mpr (.inr hrow))
      · exact .inr ⟨p, List.mem_append_left _ hp, hold⟩
    · cases List.mem_singleton.mp hv
      exact .inl (Table.mem_insert.mpr (.inl rfl))

theorem Logged.cleanup (h : Logged nodes hub log) (now : ℤ) :
    Logged nodes (prune now hub) (log ++ [.prune now]) where
  store := by rw [run_append, ← h.store]; rfl
  rows := by
    intro r hr
    obtain ⟨now', v, hv, hrow⟩ := h.rows r (Table.mem_keep.mp hr).1
    exact ⟨now', v, List.mem_append_left _ hv, hrow⟩
  retained := by
    intro now' v hv
    rcases List.mem_append.mp hv with hv | hv
    · rcases h.retained now' v hv with hrow | ⟨p, hp, hold⟩
      · by_cases hcut : v.atMs < rawCutoff now
        · exact .inr ⟨now, by simp, hcut⟩
        · exact .inl (Table.mem_keep.mpr ⟨hrow, decide_eq_true (not_lt.mp hcut)⟩)
      · exact .inr ⟨p, List.mem_append_left _ hp, hold⟩
    · cases List.mem_singleton.mp hv

/-- A sample that the hub stores anew was not stored before: its row would still be there, or it
would be too old by now. -/
theorem Logged.new_identity (h : Logged nodes hub log)
    (hrec : Recorded now hub u node full tx hub') (hsteady : Steady (log ++ [.ingest now u]))
    {now' : ℤ} {v : Snapshot} (hv : .ingest now' v ∈ log) (hat : v.atMs = u.atMs) :
    v.identity ≠ u.identity := by
  intro hid
  rcases h.retained now' v hv with hrow | ⟨p, hp, hold⟩
  · exact hrec.fresh ⟨sampleRow v, hrow, hid⟩
  · have hreading : p ≤ now + 23 * 3600000 :=
      (List.pairwise_append.mp hsteady).2.2 _ hp _ (List.mem_singleton.mpr rfl)
    have hwindow := hrec.accepted.at_ge
    rw [hat] at hold
    unfold rawCutoff at hold
    omega

/-- A transaction fails, finds the sample stored, or stores it. -/
theorem transact_cases (st : State) (now : ℤ) (u : Snapshot) :
    st.transact now u = (false, st) ∨
    st.hub.samples.HasKey (sampleRow u).key ∧ st.transact now u = (true, st) ∨
    ∃ node full tx, Recorded now st.hub u node full tx (ingested now st.hub u) ∧
      st.transact now u = (true, { st with
        hub := ingested now st.hub u
        log := st.log ++ [.ingest now u] }) := by
  unfold State.transact
  rcases ingest_cases now st.hub u with ⟨e, he⟩ | ⟨hk, hok⟩ | ⟨node, full, tx, hub', hok, hrec⟩
  · exact .inl (by rw [he])
  · refine .inr (.inl ⟨hk, ?_⟩)
    rw [hok]
    simp only [hk, if_true]
  · have hhub : ingested now st.hub u = hub' := by
      unfold ingested
      rw [hok]
    refine .inr (.inr ⟨node, full, tx, by rw [hhub]; exact hrec, ?_⟩)
    rw [hok, hhub]
    simp only [hrec.fresh, if_false]

end CardScope.Agent
