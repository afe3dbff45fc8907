import CardScope.Hub.Nodes
import CardScope.Hub.Enrollment
import CardScope.Library.Runs
import CardScope.Live.Replacement

/-! # Metrics of cards that were not reported

A card that a failed enumeration carries over loses its metrics, a missing card keeps them. So the
live state holds no metric of an earlier report exactly when no successful enumeration leaves out a
card that still has one.
-/

namespace CardScope.Live
open Library Model Hub Ingestion

def Unmeasured (g : GPU) : Prop := g.util = none ∧ g.memoryUsed = none ∧ g.memoryTotal = none ∧
  g.temperature = none ∧ g.power = none ∧ g.ecc = none

instance (g : GPU) : Decidable (Unmeasured g) := inferInstanceAs (Decidable (_ ∧ _))

theorem unmeasured_queryFailed (s : Snapshot) (g : GPU) : Unmeasured (queryFailed s g) :=
  ⟨rfl, rfl, rfl, rfl, rfl, rfl⟩

theorem unmeasured_notDetected {g : GPU} : Unmeasured (notDetected g) ↔ Unmeasured g := Iff.rfl

/-- What changes the store of a hub: a report or a cleanup, a call of the node service, or the
exchange of a code. -/
inductive Change where
  | measured (e : Event)
  | managed (c : Draw × NodeCall)
  | enrolled (d : Draw) (code : String)

def change (p : Platform) (st : Store) : Change → Store
  | .measured e => Hub.step st e
  | .managed c => (nodeCall p st c).2
  | .enrolled d code => match enroll p d st code with
    | some (_, _, st') => st'
    | none => st

/-- The report becomes the live state of its node. -/
def Replaces (now : ℤ) (st : Store) (s : Snapshot) : Prop := Storable now st s ∧
  ∀ row ∈ st.nodes.rows, row.id = s.nodeID → s.atMs > row.sampleAt

instance (now : ℤ) (st : Store) (s : Snapshot) : Decidable (Replaces now st s) :=
  inferInstanceAs (Decidable (Storable now st s ∧
    ∀ row ∈ st.nodes.rows, row.id = s.nodeID → s.atMs > row.sampleAt))

/-- The store, and for each node the report that its live state was taken from. -/
structure Traced where
  db : Store
  newest : String → Option Snapshot

def Traced.start (nodes : Table NodeRow NodeRow.id) : Traced := ⟨freshStore nodes, fun _ => none⟩

def Traced.step (p : Platform) (t : Traced) (c : Change) : Traced where
  db := change p t.db c
  newest := match c with
    | .measured (.ingest now s) =>
      if Replaces now t.db s then Function.update t.newest s.nodeID (some s) else t.newest
    | _ => t.newest

theorem traced_db (p : Platform) (changes : List Change) (t : Traced) :
    (changes.foldl (Traced.step p) t).db = changes.foldl (change p) t.db := by
  induction changes generalizing t with
  | nil => rfl
  | cons c changes ih => exact ih _

/-- Cards of a live state that its report did not list have no metrics. -/
def NothingStale (t : Traced) : Prop := ∀ row ∈ t.db.nodes.rows, ∀ g ∈ row.snapshot.gpus,
  (∀ s ∈ t.newest row.id, ¬ s.Lists g.uuid) → Unmeasured g

instance (t : Traced) : Decidable (NothingStale t) := inferInstanceAs (Decidable
  (∀ row ∈ t.db.nodes.rows, ∀ g ∈ row.snapshot.gpus, (∀ s ∈ t.newest row.id, ¬ s.Lists g.uuid) →
    Unmeasured g))

/-- A newer successful enumeration leaves out a card that still has a metric. -/
def LeavesOut (st : Store) (s : Snapshot) : Prop := s.gpuStatus = "ok" ∧
  ∃ row ∈ st.nodes.rows, row.id = s.nodeID ∧ s.atMs > row.sampleAt ∧
    ∃ g ∈ row.snapshot.gpus, ¬ s.Lists g.uuid ∧ ¬ Unmeasured g

instance (st : Store) (s : Snapshot) : Decidable (LeavesOut st s) :=
  inferInstanceAs (Decidable (s.gpuStatus = "ok" ∧ ∃ row ∈ st.nodes.rows, row.id = s.nodeID ∧
    s.atMs > row.sampleAt ∧ ∃ g ∈ row.snapshot.gpus, ¬ s.Lists g.uuid ∧ ¬ Unmeasured g))

/-- No accepted report leaves out a card that still has a metric. -/
def KeepsMeasured (t : Traced) : Change → Prop
  | .measured (.ingest now s) => Storable now t.db s → ¬ LeavesOut t.db s
  | _ => True

/-! ## Management -/

def SameRow (row row' : NodeRow) : Prop :=
  row.id = row'.id ∧ row.snapshot = row'.snapshot ∧ row.sampleAt = row'.sampleAt

/-- The live states are as before; new nodes have no cards. -/
def SameLive (nodes nodes' : Table NodeRow NodeRow.id) : Prop :=
  (∀ row' ∈ nodes', row'.snapshot.gpus = [] ∨ ∃ row ∈ nodes, SameRow row row') ∧
    ∀ row ∈ nodes, ∃ row' ∈ nodes', SameRow row row'

theorem sameLive_refl (nodes : Table NodeRow NodeRow.id) : SameLive nodes nodes :=
  ⟨fun row hrow => .inr ⟨row, hrow, rfl, rfl, rfl⟩, fun row hrow => ⟨row, hrow, rfl, rfl, rfl⟩⟩

theorem sameLive_modify (nodes : Table NodeRow NodeRow.id) {id : String} {f : NodeRow → NodeRow}
    (hf : ∀ n, (f n).id = n.id)
    (hsame : ∀ n, (f n).snapshot = n.snapshot ∧ (f n).sampleAt = n.sampleAt) :
    SameLive nodes (nodes.modify id f hf) := by
  have hrow : ∀ row : NodeRow, SameRow row (if row.id = id then f row else row) := by
    intro row
    split_ifs
    · exact ⟨(hf row).symm, (hsame row).1.symm, (hsame row).2.symm⟩
    · exact ⟨rfl, rfl, rfl⟩
  constructor
  · intro row' hrow'
    obtain ⟨row, hmem, rfl⟩ := Table.mem_modify.mp hrow'
    exact .inr ⟨row, hmem, hrow row⟩
  · exact fun row hmem => ⟨_, Table.mem_modify.mpr ⟨row, hmem, rfl⟩, hrow row⟩

theorem sameLive_insert (nodes : Table NodeRow NodeRow.id) {row : NodeRow}
    (hkey : ¬ nodes.HasKey row.id) (hrow : row.snapshot.gpus = []) :
    SameLive nodes (nodes.insert row hkey) := by
  constructor
  · intro row' hrow'
    rcases Table.mem_insert.mp hrow' with rfl | hrow'
    · exact .inl hrow
    · exact .inr ⟨row', hrow', rfl, rfl, rfl⟩
  · exact fun row' hrow' => ⟨row', Table.mem_insert.mpr (.inr hrow'), rfl, rfl, rfl⟩

section Managed

variable {p : Platform} {st : Store} {n : String}

/-- Administration changes nothing but nodes, and no live state. -/
def Administers (st st' : Store) : Prop :=
  ∃ nodes, st' = { st with nodes := nodes } ∧ SameLive st.nodes nodes

theorem administers_refl (st : Store) : Administers st st := ⟨st.nodes, rfl, sameLive_refl _⟩

theorem administers_execUpdate (id : String) (f : NodeRow → NodeRow) (hf : ∀ n, (f n).id = n.id)
    (hsame : ∀ n, (f n).snapshot = n.snapshot ∧ (f n).sampleAt = n.sampleAt) :
    Administers st (execUpdate st id f hf).2 :=
  ⟨_, rfl, sameLive_modify _ hf hsame⟩

theorem administers_execInsert {row : NodeRow} (hrow : row.snapshot.gpus = []) :
    Administers st (execInsert st row).2 := by
  unfold execInsert
  split_ifs with hkey
  · exact administers_refl st
  · exact ⟨_, rfl, sameLive_insert _ hkey hrow⟩

theorem administers_nodeCall (c : Draw × NodeCall) : Administers st (nodeCall p st c).2 := by
  obtain ⟨d, c⟩ := c
  cases c with
  | create name =>
    simp only [nodeCall]
    split_ifs
    · exact administers_refl st
    · exact administers_refl st
    · exact administers_execInsert rfl
  | configure id s =>
    simp only [nodeCall]
    split_ifs
    · exact administers_refl st
    · exact administers_refl st
    · exact administers_refl st
    · exact administers_refl st
    · cases cleanTags (s.tags.getD []) [] with
      | error e => exact administers_refl st
      | ok tags =>
        exact administers_execUpdate id (NodeRow.configured s (trimSpace s.name) tags)
          (fun _ => rfl) (fun _ => ⟨rfl, rfl⟩)
  | issueCode id =>
    exact administers_execUpdate id (NodeRow.issued (p.hash d.first.text) (codeExpiry d.now))
      (fun _ => rfl) (fun _ => ⟨rfl, rfl⟩)
  | revoke id =>
    exact administers_execUpdate id NodeRow.revoked (fun _ => rfl) (fun _ => ⟨rfl, rfl⟩)

theorem administers_enroll {d : Draw} {code : String} {result : String × String × Store}
    (h : enroll p d st code = some result) : Administers st result.2.2 := by
  unfold enroll redeem at h
  split_ifs at h
  cases hn : nodeOfCode p d.now st code with
  | none => simp [hn] at h
  | some row =>
    simp only [hn, Option.bind_eq_bind, Option.bind_some, pure, Option.some.injEq] at h
    cases h
    exact ⟨_, rfl, sameLive_modify st.nodes (f := NodeRow.enrolled (p.hash d.first.text))
      (fun _ => rfl) (fun _ => ⟨rfl, rfl⟩)⟩

theorem change_cases (p : Platform) (st : Store) (c : Change) :
    (∃ now s, c = .measured (.ingest now s)) ∨ (∃ now, c = .measured (.prune now)) ∨
      Administers st (change p st c) := by
  cases c with
  | measured e =>
    cases e with
    | ingest now s => exact .inl ⟨now, s, rfl⟩
    | prune now => exact .inr (.inl ⟨now, rfl⟩)
  | managed c => exact .inr (.inr (administers_nodeCall c))
  | enrolled d code =>
    refine .inr (.inr ?_)
    simp only [change]
    cases h : enroll p d st code with
    | none => exact administers_refl st
    | some result => exact administers_enroll h

theorem Administers.consistent {st' : Store} (h : Administers st st') (hc : Consistent st n) :
    Consistent st' n := by
  obtain ⟨nodes, rfl, hsame⟩ := h
  refine { hc with live_nodup := fun row' hrow' hid => ?_, live_gpu := fun row' hrow' hid => ?_ }
  · rcases hsame.1 row' hrow' with hnil | ⟨row, hrow, hrid, hsnap, -⟩
    · rw [hnil]
      exact List.nodup_nil
    · rw [← hsnap]
      exact hc.live_nodup row hrow (hrid.trans hid)
  · rcases hsame.1 row' hrow' with hnil | ⟨row, hrow, hrid, hsnap, hat⟩
    · rw [hnil]
      exact fun g hg => absurd hg List.not_mem_nil
    · rw [← hsnap, ← hat]
      exact hc.live_gpu row hrow (hrid.trans hid)

theorem consistent_change (hc : Consistent st n) (c : Change) : Consistent (change p st c) n := by
  rcases change_cases p st c with ⟨now, s, rfl⟩ | ⟨now, rfl⟩ | h
  · exact hc.ingested now s
  · exact hc.prune now
  · exact h.consistent hc

end Managed

/-! ## Reports -/

section Step

variable {p : Platform} {t : Traced}

/-- One replacement: the cards that it keeps without metrics are those that it does not leave out
with one. -/
theorem unmeasured_replacement_iff {now : ℤ} {st tx st' : Store} {s full : Snapshot}
    {node : NodeRow} (hr : Recorded now st s node full tx st') :
    (∀ g ∈ (replacement full node).gpus, ¬ s.Lists g.uuid → Unmeasured g) ↔
      (s.gpuStatus = "ok" → ∀ g ∈ node.snapshot.gpus, ¬ s.Lists g.uuid → Unmeasured g) := by
  have hstatus : full.gpuStatus = s.gpuStatus := by rw [hr.full_eq]
  have hlists : s.gpuStatus = "ok" → ∀ u, full.Lists u ↔ s.Lists u := by
    intro hok u
    rw [hr.full_lists]
    exact or_iff_left (fun hgap => hgap.1 hok)
  constructor
  · intro h hok g hg hl
    have hmissing : g ∈ missingGPUs full node := by
      rw [missingGPUs, if_pos (hstatus.trans hok)]
      exact List.mem_filter.mpr ⟨hg, by simpa [hlists hok] using hl⟩
    exact unmeasured_notDetected.mp
      (h _ (List.mem_append_right _ (List.mem_map_of_mem hmissing)) hl)
  · intro h g hg hl
    rcases List.mem_append.mp hg with hg | hg
    · rcases hr.mem_full hg with hg | ⟨-, c, rfl⟩
      · exact absurd ⟨g, hg, rfl⟩ hl
      · exact unmeasured_queryFailed s c
    · obtain ⟨c, hc, rfl⟩ := List.mem_map.mp hg
      unfold missingGPUs at hc
      split_ifs at hc with hok
      · exact unmeasured_notDetected.mpr (h (hstatus.symm.trans hok) c (List.mem_filter.mp hc).1 hl)
      · exact absurd hc List.not_mem_nil

theorem mem_nodes_recorded {now : ℤ} {st tx st' : Store} {s full : Snapshot} {node row : NodeRow}
    (hr : Recorded now st s node full tx st') : row ∈ st'.nodes.rows ↔
      row = refreshedRow now full node ∨ row.id ≠ s.nodeID ∧ row ∈ st.nodes.rows := by
  have hfind : row ∈ st'.nodes.rows ↔ st'.nodes.find? row.id = some row :=
    ⟨fun h => Table.find?_eq_some.mpr ⟨h, rfl⟩, fun h => (Table.find?_eq_some.mp h).1⟩
  have hid : (refreshedRow now full node).id = s.nodeID :=
    (Table.find?_eq_some.mp hr.row).2
  rw [hfind, hr.nodes_find?]
  by_cases hn : s.nodeID = row.id
  · rw [if_pos hn, Option.some_inj]
    exact ⟨fun h => .inl h.symm, fun h => h.elim Eq.symm (fun h => absurd hn.symm h.1)⟩
  · rw [if_neg hn, Table.find?_eq_some]
    constructor
    · exact fun h => .inr ⟨Ne.symm hn, h.1⟩
    · rintro (rfl | h)
      · exact absurd hid.symm hn
      · exact ⟨h.2, rfl⟩

theorem replaces_iff {now : ℤ} {st tx st' : Store} {s full : Snapshot} {node : NodeRow}
    (hr : Recorded now st s node full tx st') (hstore : Storable now st s) :
    Replaces now st s ↔ s.atMs > node.sampleAt := by
  refine ⟨fun hrep => hrep.2 node hr.node_mem.1 hr.node_mem.2, fun hat => ⟨hstore, ?_⟩⟩
  intro row hrow hid
  rw [Table.eq_of_key hrow hr.node_mem.1 (hid.trans hr.node_mem.2.symm)]
  exact hat

theorem newest_of_replaces {now : ℤ} {s : Snapshot} (h : Replaces now t.db s) :
    (t.step p (.measured (.ingest now s))).newest = Function.update t.newest s.nodeID (some s) :=
  if_pos h

theorem newest_of_not_replaces {now : ℤ} {s : Snapshot} (h : ¬ Replaces now t.db s) :
    (t.step p (.measured (.ingest now s))).newest = t.newest :=
  if_neg h

theorem snapshot_of_newer {now : ℤ} {st tx st' : Store} {s full : Snapshot} {node : NodeRow}
    (hr : Recorded now st s node full tx st') (hat : s.atMs > node.sampleAt) :
    (refreshedRow now full node).snapshot = replacement full node := by
  rw [refreshedRow_snapshot, hr.atMs_full, if_pos hat]

theorem snapshot_of_not_newer {now : ℤ} {st tx st' : Store} {s full : Snapshot} {node : NodeRow}
    (hr : Recorded now st s node full tx st') (hat : ¬ s.atMs > node.sampleAt) :
    (refreshedRow now full node).snapshot = node.snapshot := by
  rw [refreshedRow_snapshot, hr.atMs_full, if_neg hat]

theorem leavesOut_iff {now : ℤ} {st tx st' : Store} {s full : Snapshot} {node : NodeRow}
    (hr : Recorded now st s node full tx st') : LeavesOut st s ↔
      s.atMs > node.sampleAt ∧ s.gpuStatus = "ok" ∧
        ∃ g ∈ node.snapshot.gpus, ¬ s.Lists g.uuid ∧ ¬ Unmeasured g := by
  constructor
  · rintro ⟨hok, row, hrow, hid, hat, hcard⟩
    rw [Table.eq_of_key hrow hr.node_mem.1 (hid.trans hr.node_mem.2.symm)] at hat hcard
    exact ⟨hat, hok, hcard⟩
  · rintro ⟨hat, hok, hcard⟩
    exact ⟨hok, node, hr.node_mem.1, hr.node_mem.2, hat, hcard⟩

/-- After an accepted report nothing is stale exactly when it did not leave out a measured card. -/
theorem NothingStale.recorded_iff {now : ℤ} {tx : Store} {s full : Snapshot} {node : NodeRow}
    (h : NothingStale t) (hstore : Storable now t.db s)
    (hr : Recorded now t.db s node full tx (ingested now t.db s)) :
    NothingStale (t.step p (.measured (.ingest now s))) ↔ ¬ LeavesOut t.db s := by
  have hid : (refreshedRow now full node).id = s.nodeID := (Table.find?_eq_some.mp hr.row).2
  by_cases hat : s.atMs > node.sampleAt
  · have hnewest := newest_of_replaces (p := p) ((replaces_iff hr hstore).mpr hat)
    have hsnap := snapshot_of_newer hr hat
    have hgoal : (¬ LeavesOut t.db s) ↔
        (∀ g ∈ (replacement full node).gpus, ¬ s.Lists g.uuid → Unmeasured g) := by
      rw [unmeasured_replacement_iff hr, leavesOut_iff hr]
      simp only [hat, true_and, not_and, not_exists, not_not]
    rw [hgoal]
    constructor
    · intro hall g hg hl
      apply hall _ ((mem_nodes_recorded hr).mpr (.inl rfl)) g (hsnap ▸ hg)
      rw [hid, hnewest, Function.update_self]
      rintro _ ⟨⟩
      exact hl
    · intro hnew row hrow g hg hun
      rw [hnewest] at hun
      rcases (mem_nodes_recorded hr).mp hrow with rfl | ⟨hne, hrow⟩
      · rw [hid, Function.update_self] at hun
        exact hnew g (hsnap ▸ hg) (hun s rfl)
      · rw [Function.update_of_ne hne] at hun
        exact h row hrow g hg hun
  · refine iff_of_true (fun row hrow g hg hun => ?_) (fun hl => hat ((leavesOut_iff hr).mp hl).1)
    rw [newest_of_not_replaces (fun hrep => hat ((replaces_iff hr hstore).mp hrep))] at hun
    rcases (mem_nodes_recorded hr).mp hrow with rfl | ⟨-, hrow⟩
    · rw [snapshot_of_not_newer hr hat] at hg
      rw [hid, ← hr.node_mem.2] at hun
      exact h node hr.node_mem.1 g hg hun
    · exact h row hrow g hg hun

theorem NothingStale.administered {st' : Store} (h : NothingStale t) (ha : Administers t.db st') :
    NothingStale ⟨st', t.newest⟩ := by
  obtain ⟨nodes, rfl, hsame⟩ := ha
  intro row' hrow' g hg hun
  rcases hsame.1 row' hrow' with hnil | ⟨row, hrow, hid, hsnap, -⟩
  · rw [hnil] at hg
    exact absurd hg List.not_mem_nil
  · rw [← hsnap] at hg
    rw [← hid] at hun
    exact h row hrow g hg hun

theorem NothingStale.step_iff (h : NothingStale t) (hc : ∀ n, Consistent t.db n) (c : Change) :
    NothingStale (t.step p c) ↔ KeepsMeasured t c := by
  cases c with
  | measured e =>
    cases e with
    | ingest now s =>
      by_cases hstore : Storable now t.db s
      · obtain ⟨node, full, tx, hr⟩ := recorded_of_storable (hc _) hstore
        exact (h.recorded_iff hstore hr).trans ⟨fun hno _ => hno, fun hno => hno hstore⟩
      · refine iff_of_true ?_ (fun hyes => absurd hyes hstore)
        have hdb : (t.step p (.measured (.ingest now s))).db = t.db := ingested_of_not_storable hstore
        have hnewest : (t.step p (.measured (.ingest now s))).newest = t.newest :=
          if_neg (fun hrep => hstore hrep.1)
        unfold NothingStale
        rw [hdb, hnewest]
        exact h
    | prune now => exact iff_of_true h trivial
  | managed c => exact iff_of_true (h.administered (administers_nodeCall c)) trivial
  | enrolled d code =>
    refine iff_of_true ?_ trivial
    rcases change_cases p t.db (.enrolled d code) with ⟨_, _, hc⟩ | ⟨_, hc⟩ | ha
    · cases hc
    · cases hc
    · exact h.administered ha

end Step

/-- In every run, a card that the report of the live state did not list has no metrics throughout,
exactly when no accepted report leaves out a card that still has one. -/
theorem nothingStale_iff (p : Platform) (nodes : Table NodeRow NodeRow.id) (changes : List Change) :
    (∀ early, early <+: changes → NothingStale (early.foldl (Traced.step p) (Traced.start nodes))) ↔
      Along (Traced.step p) KeepsMeasured (Traced.start nodes) changes := by
  refine forall_prefix_iff_along_of (fun _ t => ∀ n, Consistent t.db n) NothingStale
    (fun c _ t hc n => consistent_change (hc n) c) (fun c _ t hc h => h.step_iff hc c) changes
    (consistent_freshStore nodes) (fun row hrow g hg => ?_)
  obtain ⟨r, -, rfl⟩ := List.mem_map.mp hrow
  exact absurd hg List.not_mem_nil

/-! ## The traced reports -/

/-- The live states come from the traced reports. -/
def FromNewest (t : Traced) : Prop := ∀ id, ∀ s ∈ t.newest id, ∃ row ∈ t.db.nodes,
  row.id = id ∧ row.snapshot = { s with gpus := row.snapshot.gpus } ∧ row.sampleAt = s.atMs

theorem FromNewest.administered {t : Traced} {st' : Store} (h : FromNewest t)
    (ha : Administers t.db st') : FromNewest ⟨st', t.newest⟩ := by
  obtain ⟨nodes, rfl, hsame⟩ := ha
  intro id s hs
  obtain ⟨row, hrow, hid, hsnap, hat⟩ := h id s hs
  obtain ⟨row', hrow', hid', hsnap', hat'⟩ := hsame.2 row hrow
  exact ⟨row', hrow', hid'.symm.trans hid, hsnap' ▸ hsnap, hat'.symm.trans hat⟩

theorem FromNewest.recorded {p : Platform} {t : Traced} {now : ℤ} {tx : Store} {s full : Snapshot}
    {node : NodeRow} (h : FromNewest t) (hstore : Storable now t.db s)
    (hr : Recorded now t.db s node full tx (ingested now t.db s)) :
    FromNewest (t.step p (.measured (.ingest now s))) := by
  have hid : (refreshedRow now full node).id = s.nodeID := (Table.find?_eq_some.mp hr.row).2
  have hnew := (mem_nodes_recorded hr).mpr (.inl rfl)
  have hsampleAt := refreshedRow_sampleAt now full node
  rw [hr.atMs_full] at hsampleAt
  intro id s' hs'
  by_cases hat : s.atMs > node.sampleAt
  · rw [newest_of_replaces ((replaces_iff hr hstore).mpr hat)] at hs'
    by_cases hn : id = s.nodeID
    · subst hn
      rw [Function.update_self] at hs'
      cases hs'
      refine ⟨_, hnew, hid, ?_, hsampleAt.trans (max_eq_right hat.le)⟩
      rw [snapshot_of_newer hr hat]
      exact (replacement_spec hr).1
    · rw [Function.update_of_ne hn] at hs'
      obtain ⟨row, hrow, hrid, hrest⟩ := h id s' hs'
      exact ⟨row, (mem_nodes_recorded hr).mpr (.inr ⟨hrid ▸ hn, hrow⟩), hrid, hrest⟩
  · rw [newest_of_not_replaces (fun hrep => hat ((replaces_iff hr hstore).mp hrep))] at hs'
    obtain ⟨row, hrow, hrid, hrsnap, hrat⟩ := h id s' hs'
    by_cases hn : id = s.nodeID
    · obtain rfl := Table.eq_of_key hrow hr.node_mem.1 (hrid.trans (hn.trans hr.node_mem.2.symm))
      refine ⟨_, hnew, hid.trans hn.symm, ?_, ?_⟩
      · rw [snapshot_of_not_newer hr hat]
        exact hrsnap
      · exact hsampleAt.trans ((max_eq_left (not_lt.mp hat)).trans hrat)
    · exact ⟨row, (mem_nodes_recorded hr).mpr (.inr ⟨hrid ▸ hn, hrow⟩), hrid, hrsnap, hrat⟩

theorem FromNewest.step {p : Platform} {t : Traced} (h : FromNewest t)
    (hc : ∀ n, Consistent t.db n) (c : Change) : FromNewest (t.step p c) := by
  cases c with
  | measured e =>
    cases e with
    | ingest now s =>
      by_cases hstore : Storable now t.db s
      · obtain ⟨node, full, tx, hr⟩ := recorded_of_storable (hc _) hstore
        exact h.recorded hstore hr
      · have hdb : (t.step p (.measured (.ingest now s))).db = t.db :=
          ingested_of_not_storable hstore
        have hnewest := newest_of_not_replaces (p := p) (t := t) (fun hrep => hstore hrep.1)
        unfold FromNewest
        rw [hdb, hnewest]
        exact h
    | prune now => exact h
  | managed c => exact h.administered (administers_nodeCall c)
  | enrolled d code =>
    rcases change_cases p t.db (.enrolled d code) with ⟨_, _, hc⟩ | ⟨_, hc⟩ | ha
    · cases hc
    · cases hc
    · exact h.administered ha

/-- What is traced is the report in the live state: they differ in the kept cards only. -/
theorem newest_is_live (p : Platform) (nodes : Table NodeRow NodeRow.id) (changes : List Change) :
    FromNewest (changes.foldl (Traced.step p) (Traced.start nodes)) := by
  have hstart : FromNewest (Traced.start nodes) := fun id s hs => by cases hs
  exact (foldl_invariant (Traced.step p) (fun _ t => (∀ n, Consistent t.db n) ∧ FromNewest t)
    (fun c _ t h => ⟨fun n => consistent_change (h.1 n) c, h.2.step h.1 c⟩) changes _
    ⟨consistent_freshStore nodes, hstart⟩).2

/-- A card reports and is missing in the next report. -/
def lostCard : List Change :=
  [.measured (.ingest 1700000041000 (sample "n" 1 1700000041000)),
    .measured (.ingest 1700000046000 { sample "n" 2 1700000046000 with gpus := [] })]

/-- The missing card still shows the memory and the load of the report before. -/
theorem missing_card_keeps_metrics : ¬ ∀ (p : Platform) (nodes : Table NodeRow NodeRow.id)
    (changes : List Change), NothingStale (changes.foldl (Traced.step p) (Traced.start nodes)) := by
  intro h
  have hstale := h ascii (Hub.node "n") lostCard
  exact absurd hstale (by decide +kernel)

end CardScope.Live
