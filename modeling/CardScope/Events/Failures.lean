import CardScope.Events.Started
import CardScope.Ingestion.Intake
import CardScope.Integration.Timeline
import CardScope.Library.Blocks

/-! # Failure events

A failing point is reported when the point before it does not fail. The decision is made for the
points known at that time and is not taken back, so that a late point can part the events from
the blocks of failing points.
-/

namespace CardScope.Events
open Library Model Hub Ingestion Integration

variable {n u b : String} {now : ℤ} {st tx tx' st' : Store} {s full : Snapshot} {node : NodeRow}
  {g : GPU}

def failing (p : Point) : Bool := p.status != "ok"

/-- The report does not show the card as healthy; a card that it does not list is not. -/
def Fails (s : Snapshot) (u : String) : Prop := ∀ g ∈ s.gpus, g.uuid = u → g.status ≠ "ok"

instance (s : Snapshot) (u : String) : Decidable (Fails s u) :=
  inferInstanceAs (Decidable (∀ g ∈ s.gpus, g.uuid = u → g.status ≠ "ok"))

/-- The failure events of a card carry the times at which its blocks of failing points begin. -/
def FailuresMatch (st : Store) (n u b : String) : Prop :=
  ((eventsOf st n u .failure).map EventRow.atMs).Perm
    ((blockStarts failing false (st.timeline n u b)).map Point.atMs)

instance (st : Store) (n u b : String) : Decidable (FailuresMatch st n u b) :=
  inferInstanceAs (Decidable (List.Perm _ _))

/-- The report puts a point of the card right before a failing one, and the new point fails
exactly when the one that stood there does not. -/
def Displaces (st : Store) (s : Snapshot) (u : String) : Prop := Observes st s u ∧
  (∃ c ∈ st.pointAfter s.nodeID u s.bootID s.atMs, c.status ≠ "ok") ∧
  (Fails s u ↔ ∀ a ∈ st.pointBefore s.nodeID u s.bootID s.atMs, a.status = "ok")

instance (st : Store) (s : Snapshot) (u : String) : Decidable (Displaces st s u) :=
  inferInstanceAs (Decidable (Observes st s u ∧
    (∃ c ∈ st.pointAfter s.nodeID u s.bootID s.atMs, c.status ≠ "ok") ∧
    (Fails s u ↔ ∀ a ∈ st.pointBefore s.nodeID u s.bootID s.atMs, a.status = "ok")))

section Cards

theorem pointBefore_observe_of_other (h : observe s tx g = .ok tx') (hu : g.uuid ≠ u) (n b : String)
    (t : ℤ) : tx'.pointBefore n u b t = tx.pointBefore n u b t := by
  obtain ⟨hkey, hpoints⟩ := observe_points h
  have hrows : tx'.laneRows n u b = tx.laneRows n u b := by
    unfold Store.laneRows
    rw [hpoints, Table.rows_insert]
    exact List.filter_cons_of_neg (by simp [pointRow, hu])
  rw [Store.pointBefore, hrows, Store.pointBefore]

theorem failures_observe (h : observe s tx g = .ok tx') (u : String) :
    eventsOf tx' s.nodeID u .failure =
      (if g.uuid = u ∧ g.status ≠ "ok" ∧
          ∀ a ∈ tx.pointBefore s.nodeID u s.bootID s.atMs, a.status = "ok"
        then [failureEvent s g] else []) ++ eventsOf tx s.nodeID u .failure := by
  rw [eventsOf, observe_events h, failureEvents_eq]
  have hstarted : ∀ before after, (startedEvents s g before after tx.events).filter
      (fun e => IsOf s.nodeID u .failure e) = eventsOf tx s.nodeID u .failure :=
    fun before after => startedEvents_of_kind (by simp) s g before after tx.events
  by_cases hu : g.uuid = u
  · subst hu
    have hof : IsOf s.nodeID g.uuid .failure (failureEvent s g) := ⟨rfl, rfl, rfl⟩
    split_ifs with hf hcond hcond
    · rw [List.filter_cons, if_pos (decide_eq_true hof), hstarted]
      rfl
    · exact absurd ⟨rfl, hf⟩ hcond
    · exact absurd hcond.2 hf
    · exact hstarted _ _
  · have hnone : ¬ (g.uuid = u ∧ g.status ≠ "ok" ∧
        ∀ a ∈ tx.pointBefore s.nodeID u s.bootID s.atMs, a.status = "ok") := fun hc => hu hc.1
    rw [if_neg hnone, List.nil_append]
    split_ifs
    · rw [List.filter_cons_of_neg (fun hof => hu (of_decide_eq_true hof).2.1)]
      exact hstarted _ _
    · exact hstarted _ _

/-- The cards of a report add one failure event of a card that fails and did not before. -/
theorem failures_observed {cards : List GPU} (hnodup : (cards.map GPU.uuid).Nodup)
    (h : cards.foldlM (observe s) tx = .ok tx') (u : String) :
    (eventsOf tx' s.nodeID u .failure).map EventRow.atMs =
      (if (∃ g ∈ cards, g.uuid = u ∧ g.status ≠ "ok") ∧
          ∀ a ∈ tx.pointBefore s.nodeID u s.bootID s.atMs, a.status = "ok"
        then [s.atMs] else []) ++ (eventsOf tx s.nodeID u .failure).map EventRow.atMs := by
  induction cards generalizing tx with
  | nil =>
    cases h
    simp
  | cons g cards ih =>
    rw [List.foldlM_cons] at h
    cases ho : observe s tx g with
    | error e => simp [ho, bind, Except.bind] at h
    | ok t =>
      simp only [ho, bind, Except.bind] at h
      rw [List.map_cons, List.nodup_cons] at hnodup
      rw [ih hnodup.2 h, failures_observe ho, List.map_append, ← List.append_assoc]
      apply congrArg (fun new => new ++ (eventsOf tx s.nodeID u .failure).map EventRow.atMs)
      by_cases hu : g.uuid = u
      · have hlast : ¬ ∃ g' ∈ cards, g'.uuid = u ∧ g'.status ≠ "ok" := by
          rintro ⟨g', hg', hu', -⟩
          exact hnodup.1 (List.mem_map.mpr ⟨g', hg', hu'.trans hu.symm⟩)
        rw [if_neg (fun hc => hlast hc.1), List.nil_append]
        have hcond : (g.uuid = u ∧ g.status ≠ "ok" ∧
            ∀ a ∈ tx.pointBefore s.nodeID u s.bootID s.atMs, a.status = "ok") ↔
            (∃ g' ∈ g :: cards, g'.uuid = u ∧ g'.status ≠ "ok") ∧
              ∀ a ∈ tx.pointBefore s.nodeID u s.bootID s.atMs, a.status = "ok" := by
          rw [List.exists_mem_cons_iff, or_iff_left hlast, and_assoc]
        simp only [hcond]
        split_ifs <;> rfl
      · rw [pointBefore_observe_of_other ho hu]
        simp only [List.exists_mem_cons_iff, hu, false_and, false_or, if_false, List.map_nil,
          List.append_nil]

end Cards

theorem status_iff_fails (h : Recorded now st s node full tx st') (hg : g ∈ full.gpus) :
    g.status ≠ "ok" ↔ Fails s g.uuid := by
  rcases h.mem_full hg with hmem | ⟨hl, c, hc⟩
  · constructor
    · intro hst g' hg' hu
      rwa [List.inj_on_of_nodup_map h.accepted.uuids_nodup hg' hmem hu]
    · exact fun hf => hf g hmem rfl
  · refine iff_of_true ?_ (fun g' hg' hu => absurd ⟨g', hg', hu⟩ hl)
    rw [hc]
    exact (by decide : ("query_failed" : String) ≠ "ok")

theorem failures_of_recorded (h : Recorded now st s node full tx st') (hc : Consistent st s.nodeID)
    (u : String) : (eventsOf st' s.nodeID u .failure).map EventRow.atMs =
      (if Observes st s u ∧ Fails s u ∧
          ∀ a ∈ st.pointBefore s.nodeID u s.bootID s.atMs, a.status = "ok"
        then [s.atMs] else []) ++ (eventsOf st s.nodeID u .failure).map EventRow.atMs := by
  have hlive := hc.live_nodup node h.node_mem.1 h.node_mem.2
  have hobserved := failures_observed (h.full_nodup hlive) h.observed u
  rw [h.nodeID_full, h.bootID_full, h.atMs_full] at hobserved
  rw [h.eventsOf_of_kind (by simp), hobserved]
  have hcond : (∃ g ∈ full.gpus, g.uuid = u ∧ g.status ≠ "ok") ↔ Observes st s u ∧ Fails s u := by
    rw [observes_iff h]
    constructor
    · rintro ⟨g, hg, rfl, hst⟩
      exact ⟨⟨g, hg, rfl⟩, (status_iff_fails h hg).mp hst⟩
    · rintro ⟨⟨g, hg, rfl⟩, hf⟩
      exact ⟨g, hg, rfl, (status_iff_fails h hg).mpr hf⟩
  simp only [hcond, and_assoc]
  rfl

section Timeline

variable {l₁ l₂ : List Point} {p : Point}

theorem endsInBlock_eq_false (l : List Point) :
    endsInBlock failing l = false ↔ ∀ a ∈ l.getLast?, a.status = "ok" := by
  unfold endsInBlock failing
  cases l.getLast? <;> simp

/-- The report displaces the begin of a block when its point enters before a failing one and the
point before it is of the other kind. -/
theorem displaces_iff (hobs : Observes st s u) (hp : p.status ≠ "ok" ↔ Fails s u)
    (hbefore : st.pointBefore s.nodeID u s.bootID s.atMs = l₁.getLast?)
    (hafter : st.pointAfter s.nodeID u s.bootID s.atMs = l₂.head?) :
    Displaces st s u ↔ ∃ c, l₂.head? = some c ∧ failing c ∧ endsInBlock failing l₁ ≠ failing p := by
  have hkind : (Fails s u ↔ ∀ a ∈ l₁.getLast?, a.status = "ok") ↔
      endsInBlock failing l₁ ≠ failing p := by
    rw [← endsInBlock_eq_false, ← hp]
    cases hends : endsInBlock failing l₁ <;> simp [failing]
  unfold Displaces
  rw [hbefore, hafter, hkind]
  constructor
  · rintro ⟨-, ⟨c, hc, hst⟩, hne⟩
    exact ⟨c, hc, by simpa [failing] using hst, hne⟩
  · rintro ⟨c, hc, hst, hne⟩
    exact ⟨hobs, ⟨c, hc, by simpa [failing] using hst⟩, hne⟩

/-- A report keeps the failure events at the begins of the blocks exactly when it displaces none. -/
theorem FailuresMatch.recorded_iff (h : Recorded now st s node full tx st')
    (hc : Consistent st s.nodeID) (hi : Integrated st s.nodeID) (hi' : Integrated st' s.nodeID)
    (hdistinct : DistinctTimes st') (hmatch : FailuresMatch st s.nodeID u s.bootID) :
    FailuresMatch st' s.nodeID u s.bootID ↔ ¬ Displaces st s u := by
  have hevents := failures_of_recorded h hc u
  unfold FailuresMatch at hmatch ⊢
  by_cases hobs : Observes st s u
  · obtain ⟨l₁, l₂, p, hat, ⟨g, hg, rfl, rfl⟩, hl, hl', hbefore, hafter⟩ :=
      timeline_insert_of_recorded h hc hi hi' hdistinct hobs
    have hp : (pointOf s g).status ≠ "ok" ↔ Fails s g.uuid := status_iff_fails h hg
    have hnew : (Observes st s g.uuid ∧ Fails s g.uuid ∧
        ∀ a ∈ st.pointBefore s.nodeID g.uuid s.bootID s.atMs, a.status = "ok") ↔
        (failing (pointOf s g) && !endsInBlock failing l₁) = true := by
      rw [hbefore, ← endsInBlock_eq_false, ← hp]
      simp [failing, hobs]
    simp only [hnew] at hevents
    rw [hevents, hl', displaces_iff hobs hp hbefore hafter]
    rw [hl] at hmatch
    constructor
    · rintro hmatch' ⟨c, hc, hst, hne⟩
      apply length_blockStarts_insert hc hst hne
      have hlen := hmatch'.length_eq
      have hold := hmatch.length_eq
      rw [List.length_append, hold] at hlen
      simp only [List.length_map] at hlen
      rw [← hlen]
      split_ifs <;> rfl
    · intro hno
      have hinsert := (blockStarts_insert (p := failing) (a := pointOf s g)
        (fun c hc hst => not_not.mp (fun hne => hno ⟨c, hc, hst, hne⟩))).map Point.atMs
      rw [List.map_append] at hinsert
      refine List.Perm.trans ?_ hinsert.symm
      refine List.Perm.append ?_ hmatch
      split_ifs
      · rw [List.map_singleton, hat]
      · rfl
  · rw [if_neg (fun hnew => hobs hnew.1), List.nil_append] at hevents
    rw [hevents, timeline_of_unobserved h hi hi' hobs]
    exact iff_of_true hmatch (fun hdisplaces => hobs hdisplaces.1)

end Timeline

/-- Throughout the arrival of reports of one client start with distinct times, the failure events
of a card carry the begins of its blocks of failing points exactly when no report displaces one. -/
theorem failuresMatch_iff (nodes : Table NodeRow NodeRow.id) (n b : String)
    (calls : List (ℤ × Snapshot)) (h : Intake nodes n calls)
    (hboot : ∀ call ∈ calls, call.2.bootID = b)
    (htimes : ((calls.map Prod.snd).map Snapshot.atMs).Nodup) (u : String) :
    (∀ early, early <+: calls → FailuresMatch (runIngest (freshStore nodes) early) n u b) ↔
      Along (fun st call => ingested call.1 st call.2) (fun st call => ¬ Displaces st call.2 u)
        (freshStore nodes) calls := by
  refine forall_prefix_iff_along_of
    (fun rest st => ∃ done, done ++ rest = calls ∧ st = runIngest (freshStore nodes) done)
    (fun st => FailuresMatch st n u b) ?_ ?_ calls ⟨[], rfl, rfl⟩ (List.Perm.refl _)
  · rintro call rest st ⟨done, rfl, rfl⟩
    exact ⟨done ++ [call], by simp, (runIngest_append (freshStore nodes) done [call]).symm⟩
  · rintro call rest st ⟨done, rfl, rfl⟩ hmatch
    obtain ⟨node, full, tx, hr⟩ := h.recorded
    obtain rfl : call.2.nodeID = n := h.node call (by simp)
    obtain rfl : call.2.bootID = b := hboot call (by simp)
    have hdistinct : ∀ early, early <+: done ++ call :: rest →
        DistinctTimes (runIngest (freshStore nodes) early) := fun early he =>
      distinctTimes_of_intake (h.of_prefix he)
        (htimes.sublist ((he.sublist.map Prod.snd).map Snapshot.atMs))
    have hlast := hdistinct (done ++ [call]) ⟨rest, by simp⟩
    have hafter := (integrated_runIngest nodes _ hlast).1 call.2.nodeID
    obtain ⟨hbefore, hc, -⟩ := integrated_runIngest nodes done (hdistinct done ⟨_, rfl⟩)
    rw [runIngest_append] at hlast hafter
    exact FailuresMatch.recorded_iff hr (hc _) (hbefore _) hafter hlast hmatch

def lostSample (id : String) (seq atMs : ℤ) : Snapshot :=
  { sample id seq atMs with
    gpus := [{ testCard with status := "query_failed", processStatus := "unknown" }] }

/-- A card fails, recovers and fails again; the first failure is reported last. -/
def recoveryCalls : List (ℤ × Snapshot) :=
  [(1700000071000, sample "n" 2 1700000046000), (1700000071000, lostSample "n" 3 1700000051000),
    (1700000071000, lostSample "n" 1 1700000041000)]

theorem failuresMatch_iff_recovery :
    FailuresMatch (runIngest (freshStore (Hub.node "n")) recoveryCalls) "n" "GPU-test" "boot-one" :=
  (failuresMatch_iff (Hub.node "n") "n" "boot-one" recoveryCalls
    ⟨by decide, by decide, by decide +kernel, by decide⟩ (by decide) (by decide) "GPU-test").mpr
      (by decide +kernel) recoveryCalls List.prefix_rfl

/-- The second report of an outage arrives before the first. -/
def lateFailureCalls : List (ℤ × Snapshot) :=
  [(1700000071000, lostSample "n" 2 1700000046000), (1700000071000, lostSample "n" 1 1700000041000)]

/-- One outage is recorded twice. -/
theorem failure_recorded_twice : ¬ ∀ (nodes : Table NodeRow NodeRow.id) (n b : String)
    (calls : List (ℤ × Snapshot)), Intake nodes n calls → (∀ call ∈ calls, call.2.bootID = b) →
    ((calls.map Prod.snd).map Snapshot.atMs).Nodup → ∀ u,
      FailuresMatch (runIngest (freshStore nodes) calls) n u b := by
  intro h
  have hmatch := h (Hub.node "n") "n" "boot-one" lateFailureCalls
    ⟨by decide, by decide, by decide +kernel, by decide⟩ (by decide) (by decide) "GPU-test"
  revert hmatch
  decide +kernel

end CardScope.Events
