import CardScope.Ingestion.Effects

/-! # Accepted reports of one node

A run in which every report of a node is stored: the reports pass the limits and have distinct
identities. Each of them is recorded, which gives the induction rule of such runs.
-/

namespace CardScope.Ingestion
open Library Model Hub

/-- Reports of one registered node that the hub accepts, in the order of their arrival. -/
structure Intake (nodes : Table NodeRow NodeRow.id) (n : String) (calls : List (ℤ × Snapshot)) :
    Prop where
  registered : nodes.HasKey n
  node : ∀ call ∈ calls, call.2.nodeID = n
  valid : ∀ call ∈ calls, validate call.1 call.2 = .ok ()
  identities : ((calls.map Prod.snd).map Snapshot.identity).Nodup

variable {nodes : Table NodeRow NodeRow.id} {n : String} {calls : List (ℤ × Snapshot)}

theorem runIngest_append (st : Store) (early late : List (ℤ × Snapshot)) :
    runIngest st (early ++ late) = runIngest (runIngest st early) late := List.foldl_append

theorem run_map_ingest (st : Store) (calls : List (ℤ × Snapshot)) :
    run st (calls.map (fun call => Event.ingest call.1 call.2)) = runIngest st calls :=
  List.foldl_map

theorem consistent_runIngest {st : Store} (hc : Consistent st n) (calls : List (ℤ × Snapshot)) :
    Consistent (runIngest st calls) n :=
  foldl_invariant (fun st (call : ℤ × Snapshot) => ingested call.1 st call.2)
    (fun _ st => Consistent st n) (fun call _ _ h => h.ingested call.1 call.2) calls st hc

theorem Intake.of_prefix {early : List (ℤ × Snapshot)} (h : Intake nodes n calls)
    (he : early <+: calls) : Intake nodes n early := by
  constructor
  · exact h.registered
  · exact fun c hc => h.node c (he.subset hc)
  · exact fun c hc => h.valid c (he.subset hc)
  · exact h.identities.sublist ((he.sublist.map Prod.snd).map Snapshot.identity)

theorem Intake.storable {call : ℤ × Snapshot} (h : Intake nodes n (calls ++ [call]))
    {st : Store} (hsamples : ∀ r, r ∈ st.samples ↔ ∃ s ∈ calls.map Prod.snd, sampleRow s = r)
    (hreg : st.nodes.HasKey n) : Storable call.1 st call.2 := by
  have hids := h.identities
  rw [List.map_append, List.map_append] at hids
  obtain ⟨-, -, hdisj⟩ := List.nodup_append.mp hids
  refine ⟨h.valid call (by simp), ?_, by rw [h.node call (by simp)]; exact hreg⟩
  rintro ⟨r, hr, hk⟩
  obtain ⟨s, hs, rfl⟩ := (hsamples r).mp hr
  exact hdisj s.identity (List.mem_map_of_mem hs) call.2.identity (by simp) hk

theorem Intake.stored (h : Intake nodes n calls) :
    (∀ r, r ∈ (runIngest (freshStore nodes) calls).samples ↔
      ∃ s ∈ calls.map Prod.snd, sampleRow s = r) ∧
    (runIngest (freshStore nodes) calls).nodes.HasKey n := by
  induction calls using List.reverseRecOn with
  | nil =>
    obtain ⟨row, hrow, rfl⟩ := h.registered
    refine ⟨fun r => iff_of_false (Table.not_mem_empty r) (by simp), row.unreported, ?_, rfl⟩
    exact List.mem_map_of_mem hrow
  | append_singleton calls call ih =>
    obtain ⟨hsamples, hreg⟩ := ih (h.of_prefix (List.prefix_append _ _))
    have hn : call.2.nodeID = n := h.node call (by simp)
    have hc : Consistent (runIngest (freshStore nodes) calls) call.2.nodeID :=
      consistent_runIngest (consistent_freshStore nodes _) calls
    obtain ⟨node, full, tx, hrec⟩ := recorded_of_storable hc (h.storable hsamples hreg)
    have hrun : runIngest (freshStore nodes) (calls ++ [call]) =
        ingested call.1 (runIngest (freshStore nodes) calls) call.2 := runIngest_append _ _ _
    rw [hrun]
    refine ⟨fun r => ?_, ?_⟩
    · rw [hrec.samples_eq, Table.mem_insert, hsamples]
      simp only [List.map_append, List.mem_append, List.map_singleton, List.mem_singleton,
        or_and_right, exists_or, exists_eq_left]
      rw [or_comm, eq_comm]
    · exact ⟨_, (Table.find?_eq_some.mp hrec.row).1, (Table.find?_eq_some.mp hrec.row).2.trans hn⟩

theorem Intake.recorded {early late : List (ℤ × Snapshot)} {call : ℤ × Snapshot}
    (h : Intake nodes n (early ++ call :: late)) : ∃ node full tx,
      Recorded call.1 (runIngest (freshStore nodes) early) call.2 node full tx
        (ingested call.1 (runIngest (freshStore nodes) early) call.2) := by
  have hpart : Intake nodes n (early ++ [call]) := h.of_prefix ⟨late, by simp⟩
  obtain ⟨hsamples, hreg⟩ := (hpart.of_prefix (List.prefix_append _ _)).stored
  exact recorded_of_storable (consistent_runIngest (consistent_freshStore nodes _) early)
    (hpart.storable hsamples hreg)

/-- What each recorded report of the run keeps holds at its end. -/
theorem Intake.induction {I : List Snapshot → Store → Prop} (h : Intake nodes n calls)
    (start : I [] (freshStore nodes))
    (step : ∀ done now s st node full tx st', done ++ [s] <+: calls.map Prod.snd →
      s.nodeID = n → (∀ r, r ∈ st.samples ↔ ∃ s ∈ done, sampleRow s = r) → Consistent st n →
      Recorded now st s node full tx st' → I done st → I (done ++ [s]) st') :
    I (calls.map Prod.snd) (runIngest (freshStore nodes) calls) := by
  induction calls using List.reverseRecOn with
  | nil => exact start
  | append_singleton calls call ih =>
    have hpart : calls <+: calls ++ [call] := List.prefix_append _ _
    have hI := ih (h.of_prefix hpart) (fun done now s st node full tx st' hdone =>
      step done now s st node full tx st' (hdone.trans (hpart.map Prod.snd)))
    obtain ⟨node, full, tx, hrec⟩ := h.recorded
    have hrun : runIngest (freshStore nodes) (calls ++ [call]) =
        ingested call.1 (runIngest (freshStore nodes) calls) call.2 := runIngest_append _ _ _
    rw [hrun, List.map_append, List.map_singleton]
    exact step _ _ _ _ _ _ _ _ (by simp) (h.node call (by simp)) (h.of_prefix hpart).stored.1
      (consistent_runIngest (consistent_freshStore nodes n) calls) hrec hI

end CardScope.Ingestion
