import CardScope.Isolation.NodeRows

/-! # Independence of the nodes

An upload reads and writes the rows of its own node only. The rows of a node after any run are
therefore those of its own uploads, and uploads of different nodes commute, also when the nodes
report the same card, client start and sequence numbers.
-/

namespace CardScope.Isolation
open Library Model Hub Ingestion Access

variable {n : String} {now : ℤ} {st st' : Store} {s : Snapshot}

theorem OwnEdges.recorded {node : NodeRow} {full : Snapshot} {tx : Store} (h : OwnEdges st)
    (hr : Recorded now st s node full tx st') : OwnEdges st' := by
  have hstart : OwnEdges (withSample st s hr.fresh) := h
  have htx : OwnEdges tx := foldlM_invariant (Hub.observe full) (fun _ t => OwnEdges t)
    (fun _ _ _ _ ht hstep => ht.observe hstep) hstart hr.observed
  unfold OwnEdges
  rw [hr.measurements.2.1]
  exact htx

theorem OwnEdges.ingested (h : OwnEdges st) (now : ℤ) (s : Snapshot) :
    OwnEdges (ingested now st s) := by
  rcases ingested_cases now st s with heq | ⟨node, full, tx, hr⟩
  · rw [heq]
    exact h
  · exact h.recorded hr

theorem OwnEdges.prune (h : OwnEdges st) (now : ℤ) : OwnEdges (prune now st) :=
  fun e he => h e (Table.mem_keep.mp he).1

theorem OwnEdges.run (h : OwnEdges st) (events : List Event) : OwnEdges (Hub.run st events) := by
  refine foldl_invariant step (fun _ st => OwnEdges st) (fun e rest st hst => ?_) events st h
  cases e with
  | ingest now s => exact hst.ingested now s
  | prune now => exact hst.prune now

theorem ownEdges_of_reachable (h : Reachable st) : OwnEdges st := by
  induction h with
  | fresh nodes => exact fun e he => absurd he (Table.not_mem_empty e)
  | ingested now s _ ih => exact ih.ingested now s
  | prune now _ ih => exact ih.prune now
  | administered settings accounts sessions nodes _ ih => exact ih

/-- An upload answers and writes as it would if there were no rows but those of its node. -/
theorem ingest_ofNode (h : OwnEdges st) (now : ℤ) (s : Snapshot) :
    ingest now (ofNode s.nodeID st) s = (ingest now st s).map (ofNode s.nodeID) := by
  cases hv : validate now s with
  | error message =>
    unfold ingest
    rw [hv]
    rfl
  | ok _ =>
    have hkey : (ofNode s.nodeID st).samples.HasKey (sampleRow s).key ↔
        st.samples.HasKey (sampleRow s).key := Table.hasKey_only (decide_eq_true rfl)
    have hnode : (ofNode s.nodeID st).nodes.find? s.nodeID = st.nodes.find? s.nodeID :=
      Table.find?_only (decide_eq_true rfl)
    by_cases hk : st.samples.HasKey (sampleRow s).key
    · rw [ingest_of_known hv hk, ingest_of_known hv (hkey.mpr hk)]
      rfl
    · have hpart : ¬ (ofNode s.nodeID st).samples.HasKey (sampleRow s).key := fun hp => hk (hkey.mp hp)
      have hsample : withSample (ofNode s.nodeID st) s hpart = ofNode s.nodeID (withSample st s hk) :=
        Store.ext rfl rfl rfl rfl (Table.only_insert
          (q := fun k : String × String × ℤ => k.1 = s.nodeID) hk (decide_eq_true rfl)).symm
          rfl rfl rfl rfl rfl
      cases hn : st.nodes.find? s.nodeID with
      | none =>
        unfold ingest
        rw [hv]
        simp only [hk, hpart, dite_false, hnode, hn]
        rfl
      | some node =>
        rw [ingest_of_fresh hv hk hn, ingest_of_fresh hv hpart (hnode.trans hn), hsample,
          withCarried_ofNode]
        cases hc : withCarried (withSample st s hk) node s with
        | error e => rfl
        | ok full =>
          have hid : full.nodeID = s.nodeID := by rw [withCarried_ok hc]
          have hcards := foldlM_map (ofNode s.nodeID) OwnEdges
            (fun t g ht => by rw [← hid]; exact observe_ofNode ht full g)
            (fun t g t' ht hstep => ht.observe hstep) full.gpus (s := withSample st s hk) h
          simp only [Except.bind, hcards]
          cases full.gpus.foldlM (observe full) (withSample st s hk) with
          | error e => rfl
          | ok tx =>
            simp only [Except.map]
            rw [← hid, refreshReceived_ofNode, refreshLive_ofNode]

theorem ingested_ofNode (h : OwnEdges st) (now : ℤ) (s : Snapshot) :
    ofNode s.nodeID (ingested now st s) = ingested now (ofNode s.nodeID st) s := by
  unfold ingested
  rw [ingest_ofNode h]
  cases ingest now st s <;> rfl

theorem ingested_of_other (h : OwnEdges st) (hn : s.nodeID ≠ n) (now : ℤ) :
    ofNode n (ingested now st s) = ofNode n st := by
  rcases ingested_cases now st s with heq | ⟨node, full, tx, hr⟩
  · rw [heq]
  · have hfull : full.nodeID ≠ n := by rw [hr.nodeID_full]; exact hn
    have hstart : ofNode n (withSample st s hr.fresh) = ofNode n st :=
      Store.ext rfl rfl rfl rfl (Table.only_insert_of_other
        (q := fun k : String × String × ℤ => k.1 = n) hr.fresh (decide_eq_false hn))
        rfl rfl rfl rfl rfl
    have hedges : OwnEdges (withSample st s hr.fresh) := h
    have htx : OwnEdges tx ∧ ofNode n tx = ofNode n st := foldlM_invariant (observe full)
      (fun _ t => OwnEdges t ∧ ofNode n t = ofNode n st)
      (fun _ _ _ _ ht hstep => ⟨ht.1.observe hstep, (observe_of_other ht.1 hfull hstep).trans ht.2⟩)
      ⟨hedges, hstart⟩ hr.observed
    rw [hr.result, refreshReceived_of_other hfull, refreshLive_of_other hfull]
    exact htx.2

theorem prune_ofNode (n : String) (now : ℤ) (st : Store) :
    ofNode n (prune now st) = prune now (ofNode n st) := by
  have hright : ∀ e ∈ st.edges.only (fun k => k.1 = n),
      rightRetained st now e = rightRetained (ofNode n st) now e := by
    intro e he
    have hnode : e.key.1 = n := of_decide_eq_true (Table.mem_only.mp he).2
    have hrows : (ofNode n st).points.rows =
        st.points.rows.filter (fun r => decide (r.key.1 = n)) := rfl
    rw [Bool.eq_iff_iff, rightRetained, rightRetained, hrows, List.any_eq_true, List.any_eq_true]
    constructor
    · rintro ⟨p, hp, hcond⟩
      refine ⟨p, List.mem_filter.mpr ⟨hp, decide_eq_true ?_⟩, hcond⟩
      rw [(of_decide_eq_true hcond).1, hnode]
    · rintro ⟨p, hp, hcond⟩
      exact ⟨p, (List.mem_filter.mp hp).1, hcond⟩
  refine Store.ext rfl rfl rfl rfl ?_ rfl ?_ ?_ ?_ ?_
  · exact Table.only_keep (q := fun k : String × String × ℤ => k.1 = n) st.samples _
  · exact Table.only_keep (q := fun k : String × String × String × ℤ => k.1 = n) st.points _
  · exact (Table.only_keep (q := fun k : String × String × String × ℤ => k.1 = n) st.edges _).trans
      (Table.ext_rows (List.filter_congr hright))
  · exact Table.only_keep (q := fun k : RollupKey => k.node = n) st.rollups _
  · simp only [ofNode, prune, List.filter_filter, Bool.and_comm]

def concerns (n : String) : Event → Bool
  | .ingest _ s => s.nodeID = n
  | .prune _ => true

theorem step_ofNode (h : OwnEdges st) (n : String) (e : Event) : ofNode n (step st e) =
    if concerns n e then step (ofNode n st) e else ofNode n st := by
  cases e with
  | prune now => exact prune_ofNode n now st
  | ingest now s =>
    by_cases hn : s.nodeID = n
    · subst hn
      rw [if_pos (by simp [concerns])]
      exact ingested_ofNode h now s
    · rw [if_neg (by simpa [concerns] using hn)]
      exact ingested_of_other h hn now

/-- The rows of a node evolve on their own. -/
theorem run_ofNode (h : OwnEdges st) (n : String) (events : List Event) :
    ofNode n (run st events) = run (ofNode n st) (events.filter (concerns n)) := by
  induction events generalizing st with
  | nil => rfl
  | cons e rest ih =>
    change ofNode n (run (step st e) rest) = _
    have hnext : OwnEdges (step st e) := h.run [e]
    rw [ih hnext, step_ofNode h]
    by_cases he : concerns n e
    · rw [if_pos he, List.filter_cons_of_pos he]
      rfl
    · rw [if_neg he, List.filter_cons_of_neg he]

/-- Two stores that differ in nothing but the order between rows of different nodes. -/
structure SameRows (st st' : Store) : Prop where
  settings : st.settings = st'.settings
  accounts : st.accounts = st'.accounts
  sessions : st.sessions = st'.sessions
  nodes : ∀ n, ofNode n st = ofNode n st'

theorem ingested_administration (now : ℤ) (st : Store) (s : Snapshot) :
    (ingested now st s).settings = st.settings ∧ (ingested now st s).accounts = st.accounts ∧
      (ingested now st s).sessions = st.sessions := by
  rcases ingested_cases now st s with heq | ⟨node, full, tx, hr⟩
  · rw [heq]
    exact ⟨rfl, rfl, rfl⟩
  · have htx := foldlM_invariant (observe full)
      (fun _ t => t.settings = st.settings ∧ t.accounts = st.accounts ∧ t.sessions = st.sessions)
      (by
        intro g rest t t' ht hstep
        obtain ⟨_, heq⟩ := observe_ok hstep
        rw [heq]
        exact ht)
      (show (withSample st s hr.fresh).settings = st.settings ∧ _ ∧ _ from ⟨rfl, rfl, rfl⟩) hr.observed
    obtain ⟨nodes, hreceived⟩ := refreshReceived_keeps now full node (refreshLive full node tx)
    obtain ⟨nodes', events, hlive⟩ := refreshLive_keeps full node tx
    rw [hr.result, hreceived, hlive]
    exact htx

theorem ingested_comm (h : OwnEdges st) {s' : Snapshot} (hn : s'.nodeID ≠ s.nodeID)
    (now now' : ℤ) : SameRows (ingested now' (ingested now st s) s')
      (ingested now (ingested now' st s') s) := by
  have hsettings := fun now st s => (ingested_administration now st s).1
  have haccounts := fun now st s => (ingested_administration now st s).2.1
  have hsessions := fun now st s => (ingested_administration now st s).2.2
  constructor
  · simp only [hsettings]
  · simp only [haccounts]
  · simp only [hsessions]
  · intro n
    have hs := step_ofNode h n (.ingest now s)
    have hs' := step_ofNode h n (.ingest now' s')
    have hthen := step_ofNode (h.ingested now s) n (.ingest now' s')
    have hthen' := step_ofNode (h.ingested now' s') n (.ingest now s)
    simp only [Hub.step] at hs hs' hthen hthen'
    rw [hthen, hthen', hs, hs']
    by_cases hc : concerns n (.ingest now s)
    · have hown : s.nodeID = n := of_decide_eq_true hc
      have hother : ¬ concerns n (.ingest now' s') := by
        simpa [concerns, ← hown] using hn
      rw [if_neg hother, if_neg hother]
    · rw [if_neg hc, if_neg hc]

/-- Uploads, runs and answers of a node depend on its own rows only, and uploads of different nodes
commute. -/
theorem uploads_independent {st : Store} (h : Reachable st) (now : ℤ) (s : Snapshot) :
    (∀ n, n ≠ s.nodeID → ofNode n (ingested now st s) = ofNode n st) ∧
    (∀ st', Reachable st' → ofNode s.nodeID st' = ofNode s.nodeID st →
      (ingest now st' s).map (ofNode s.nodeID) = (ingest now st s).map (ofNode s.nodeID)) ∧
    (∀ events n, ofNode n (run st events) = ofNode n (run st (events.filter (concerns n)))) ∧
    ∀ now' s', s'.nodeID ≠ s.nodeID → SameRows (ingested now' (ingested now st s) s')
      (ingested now (ingested now' st s') s) := by
  have hown := ownEdges_of_reachable h
  refine ⟨fun n hn => ingested_of_other hown hn.symm now, fun st' h' heq => ?_,
    fun events n => ?_, fun now' s' hn => ingested_comm hown hn now now'⟩
  · rw [← ingest_ofNode hown, ← ingest_ofNode (ownEdges_of_reachable h'), heq]
  · rw [run_ofNode hown, run_ofNode hown, List.filter_filter]
    simp only [Bool.and_self]

/-- Two machines that report the same card, client start and sequence number. -/
def twoNodes : Table NodeRow NodeRow.id :=
  (node "n").insert { id := "m", name := "m", created := 0 } (by decide)

theorem uploads_independent_cloned :
    ofNode "m" (ingested 1700000071000 (run (freshStore twoNodes)
      [.ingest 1700000071000 (sample "m" 1 1700000041000)]) (sample "n" 1 1700000041000)) =
    ofNode "m" (run (freshStore twoNodes) [.ingest 1700000071000 (sample "m" 1 1700000041000)]) :=
  (uploads_independent (reachable_run (.fresh twoNodes)
    [.ingest 1700000071000 (sample "m" 1 1700000041000)]) 1700000071000
    (sample "n" 1 1700000041000)).1 "m" (by decide)

end CardScope.Isolation
