import CardScope.Attribution.Parallel
import CardScope.Hub.Rounding

/-! # What process lists can change

Process lists decide the user rows and the attributed time of the whole card, and nothing else.
A user without UID lowers these, and a further process of a known user changes no number.
-/

namespace CardScope.Attribution
open Library Model Hub Ingestion Integration

variable {L : List Process → List Process → Prop} {p p' q q' : Point} {k : RollupKey}
  {now : ℤ} {st tx st' : Store} {s full : Snapshot} {node : NodeRow}

section Edges

/-- While nothing is cleaned up, the rollups are the sums of the stored edges. -/
theorem rollupSum_eq_edgeSum (nodes : Table NodeRow NodeRow.id) (calls : List (ℤ × Snapshot))
    (test : RollupKey → Bool) : (runIngest (freshStore nodes) calls).rollupSum test =
      (runIngest (freshStore nodes) calls).edgeSum test := by
  refine (foldl_invariant (fun st (call : ℤ × Snapshot) => ingested call.1 st call.2)
    (fun _ st => st.rollupSum test = st.edgeSum test ∧ (∀ n, Consistent st n) ∧
      Drawn (fun _ => True) st) ?_ calls _
    ⟨rfl, consistent_freshStore nodes, drawn_freshStore _ nodes⟩).1
  rintro ⟨now, s⟩ rest st ⟨hsum, hc, hd⟩
  refine ⟨?_, fun n => (hc n).ingested now s, hd.ingested (fun _ _ _ => trivial)⟩
  rcases ingested_cases now st s with h | ⟨node, full, tx, h⟩
  · simp only [h]
    exact hsum
  · refine h.links (I := fun edges rollups => sumOn rollups test =
      edges.sum (fun e => total test e.data)) (hc _) hd (fun _ _ => trivial) ?_ hsum
    intro n u boot t a b _ _ _ hI
    have hrollups := rollupSum_replaceEdge t n u boot a b test
    have hedges := edgeSum_replaceEdge t n u boot a b test
    change t.rollupSum test = t.edgeSum test at hI
    rw [hI, ← hedges] at hrollups
    exact hrollups

end Edges

/-- What can be lost with a UID: the attributed time of a card, the occupied time of a user. -/
def losable (user : String) : Measures →ₗ[ℚ] ℚ :=
  if user = "" then ⟨⟨Measures.attributionValid, fun _ _ => rfl⟩, fun _ _ => rfl⟩
  else ⟨⟨Measures.occupied, fun _ _ => rfl⟩, fun _ _ => rfl⟩

section Rates

theorem losable_rate_le (h : FewerUsers p p') (user : String) :
    losable user (rate p' user) ≤ losable user (rate p user) := by
  have hvalid : p'.processValid = p.processValid := by rw [h.rest]
  by_cases hu : user = ""
  · subst hu
    rw [rate_card h.sound, rate_card h.sound', losable, if_pos rfl]
    change (if p'.processValid && p'.userValid then (1 : ℚ) else 0) ≤
      if p.processValid && p.userValid then 1 else 0
    rw [hvalid]
    have huser := h.userValid
    cases hv' : p'.userValid
    · rw [Bool.and_false, if_neg Bool.false_ne_true]
      split_ifs
      · exact zero_le_one
      · exact le_rfl
    · rw [huser hv']
  · rw [rate_user _ hu, rate_user _ hu, losable, if_neg hu, hvalid]
    have husers := h.users user
    split_ifs with h₁ h₂ h₂
    · exact le_rfl
    · exact absurd ⟨h₁.1, husers h₁.2⟩ h₂
    · exact zero_le_one
    · exact le_rfl

theorem losable_interval_le (h : FewerUsers p p') (hq : q'.atMs = q.atMs) (n u : String)
    (k : RollupKey) : losable k.user (total (fun m => m = k) (contributions n u p' q')) ≤
      losable k.user (total (fun m => m = k) (contributions n u p q)) := by
  have hshare : share n u p' q' k = share n u p q k := by
    have hat : p'.atMs = p.atMs := by rw [h.rest]
    have hinterval : p'.interval = p.interval := by rw [h.rest]
    have hbridged : Bridged p' q' ↔ Bridged p q := by
      unfold Bridged
      rw [hat, hinterval, hq]
    unfold share
    simp only [hbridged, hat, hq]
  rw [total_share, total_share, hshare, map_smul, map_smul]
  exact smul_le_smul_of_nonneg_left (losable_rate_le h k.user) (share_nonneg n u p q k)

end Rates

section Runs

variable {calls calls' : List (ℤ × Snapshot)}

theorem Differ.imp {M : List Process → List Process → Prop} (h : Differ L calls calls')
    (hLM : ∀ l l', L l l' → M l l') : Differ M calls calls' :=
  ⟨h.reports.imp (fun _ _ hs => hs.imp hLM), h.valid, h.valid'⟩

theorem compatible_unattributed : Compatible BothOrNone unattributed :=
  ⟨Iff.rfl, fun hp => sameContributions_unattributed (hp.samePoint (fun _ _ h => h))⟩

theorem compatible_numeric : Compatible Extended numeric :=
  ⟨⟨List.Sublist.refl _, fun _ hpr => absurd hpr List.not_mem_nil⟩,
    fun hp => sameContributions_numeric hp.sameUsers⟩

/-- The part of a whole-card row that process lists leave alone. -/
def withoutAttribution (r : RollupRow) : RollupRow :=
  { r with measures := { r.measures with attributionValid := 0 } }

theorem cardRow_eq (nodes : Table NodeRow NodeRow.id) (h : Differ BothOrNone calls calls')
    (hk : k.user = "") :
    ((runIngest (freshStore nodes) calls').rollups.find? k).map withoutAttribution =
      ((runIngest (freshStore nodes) calls).rollups.find? k).map withoutAttribution :=
  ((parallel_runIngest nodes compatible_unattributed h).rollups k hk).symm

theorem losable_rollup_le (nodes : Table NodeRow NodeRow.id) (h : Differ Blanked calls calls')
    (k : RollupKey) : losable k.user ((runIngest (freshStore nodes) calls').rollup k) ≤
      losable k.user ((runIngest (freshStore nodes) calls).rollup k) := by
  -- nothing is compared along the runs: the edges of the end suffice
  have hpar := parallel_runIngest nodes (v := ⟨fun _ => False, id, LinearMap.id⟩)
    ⟨List.Forall₂.nil, fun _ _ _ _ _ _ hk => hk.elim⟩ h
  have hsum : ∀ st : Store, losable k.user (st.edgeSum (fun m => m = k)) =
      st.edges.sum (fun e => losable k.user (total (fun m => m = k) e.data)) := by
    intro st
    unfold Store.edgeSum Table.sum
    rw [map_list_sum, List.map_map]
    rfl
  rw [← Store.rollupSum_eq, ← Store.rollupSum_eq, rollupSum_eq_edgeSum, rollupSum_eq_edgeSum, hsum,
    hsum]
  apply hpar.edges.sum_le
  intro e e' _ he
  obtain ⟨a, c, a', c', ha, hc, hdata, hdata'⟩ := he.ends
  rw [hdata, hdata']
  exact losable_interval_le ha.fewerUsers hc.atMs_eq _ _ k

theorem measures_eq (nodes : Table NodeRow NodeRow.id) (h : Differ Extended calls calls')
    (k : RollupKey) :
    ((runIngest (freshStore nodes) calls').rollups.find? k).map RollupRow.measures =
      ((runIngest (freshStore nodes) calls).rollups.find? k).map RollupRow.measures := by
  have hrow := (parallel_runIngest nodes compatible_numeric h).rollups k trivial
  have hmeasures := congrArg (Option.map RollupRow.measures) hrow
  rw [Option.map_map, Option.map_map] at hmeasures
  exact hmeasures.symm

/-- Process lists decide the attribution only: blanked UIDs lower it, further processes of known
users leave all numbers alone. -/
theorem rollups_of_processes (nodes : Table NodeRow NodeRow.id)
    (calls calls' : List (ℤ × Snapshot)) :
    (Differ BothOrNone calls calls' → ∀ k, k.user = "" →
      ((runIngest (freshStore nodes) calls').rollups.find? k).map withoutAttribution =
        ((runIngest (freshStore nodes) calls).rollups.find? k).map withoutAttribution) ∧
    (Differ Blanked calls calls' → ∀ k,
      (k.user = "" → ((runIngest (freshStore nodes) calls').rollup k).attributionValid ≤
        ((runIngest (freshStore nodes) calls).rollup k).attributionValid) ∧
      (k.user ≠ "" → ((runIngest (freshStore nodes) calls').rollup k).occupied ≤
        ((runIngest (freshStore nodes) calls).rollup k).occupied)) ∧
    (Differ Extended calls calls' → ∀ k,
      ((runIngest (freshStore nodes) calls').rollups.find? k).map RollupRow.measures =
        ((runIngest (freshStore nodes) calls).rollups.find? k).map RollupRow.measures) := by
  refine ⟨fun h k hk => cardRow_eq nodes h hk, fun h k => ⟨fun hu => ?_, fun hu => ?_⟩,
    fun h k => measures_eq nodes h k⟩
  · have hle := losable_rollup_le nodes h k
    rw [losable, if_pos hu] at hle
    exact hle
  · have hle := losable_rollup_le nodes h k
    rw [losable, if_neg hu] at hle
    exact hle

def sharedCalls : List (ℤ × Snapshot) :=
  [(1700000071000, sample "n" 1 1700000041000), (1700000071000, sample "n" 2 1700000046000)]

/-- The same samples without the UID of bob. -/
def anonymousCalls : List (ℤ × Snapshot) := sharedCalls.map (fun call => (call.1,
  { call.2 with gpus := [{ testCard with processes := testCard.processes.map (fun pr =>
    if pr.user = "bob" then { pr with uid := "" } else pr) }] }))

theorem rollups_of_processes_anonymous :
    ((runIngest (freshStore (Hub.node "n")) anonymousCalls).rollup
      ⟨"n", "GPU-test", "", 60000, 1700000040000⟩).attributionValid ≤
    ((runIngest (freshStore (Hub.node "n")) sharedCalls).rollup
      ⟨"n", "GPU-test", "", 60000, 1700000040000⟩).attributionValid := by
  have hcards : List.Forall₂ (SameCard Blanked) [testCard]
      [{ testCard with processes := testCard.processes.map (fun pr =>
        if pr.user = "bob" then { pr with uid := "" } else pr) }] :=
    .cons ⟨rfl, .cons (.inl rfl) (.cons (.inl rfl) (.cons (.inr rfl) .nil))⟩ .nil
  exact (((rollups_of_processes (Hub.node "n") sharedCalls anonymousCalls).2.1
    ⟨.cons ⟨rfl, hcards⟩ (.cons ⟨rfl, hcards⟩ .nil), by decide +kernel, by decide +kernel⟩) _).1 rfl

/-- Alice gets 4.992 s of a minute in the second start of the client; what she gets of it in the
first, whose first sample has the processes `first`, is taken back by a late sample. -/
def retractedCalls (first : List Process) : List (ℤ × Snapshot) :=
  [{ sample "n" 1 1700000060000 with bootID := "boot-two" },
    { sample "n" 2 1700000064992 with bootID := "boot-two" },
    { sample "n" 1 1700000039000 with gpus := [{ testCard with processes := first }] },
    { sample "n" 3 1700000044379 with
      gpus := [{ testCard with processes := [{ pid := 14, uid := "1001", user := "bob" }] }] },
    { sample "n" 2 1700000040000 with
      gpus := [{ testCard with processes := [{ pid := 14, uid := "1001", user := "bob" }] }] }].map
    (fun s => (1700000071000, s))

/-- The first sample of the first start without the UID of alice. -/
def blankedProcesses : List Process :=
  testCard.processes.map (fun pr => if pr.user = "alice" then { pr with uid := "" } else pr)

/-- In binary64 the blanked UID leaves alice with more time: 4.992 s instead of
(4.992 + 4.379) - 4.379 = 4.991999999999999 s. -/
theorem blanked_raises_rounded :
    Differ Blanked (retractedCalls testCard.processes) (retractedCalls blankedProcesses) ∧
    ((Rounded.runIngest Binary64.round (freshStore (Hub.node "n"))
        (retractedCalls testCard.processes)).rollup
        ⟨"n", "GPU-test", "1000", 60000, 1700000040000⟩).occupied <
      ((Rounded.runIngest Binary64.round (freshStore (Hub.node "n"))
        (retractedCalls blankedProcesses)).rollup
        ⟨"n", "GPU-test", "1000", 60000, 1700000040000⟩).occupied := by
  have hsame : ∀ processes, List.Forall₂ (SameCard Blanked) [{ testCard with processes := processes }]
      [{ testCard with processes := processes }] := by
    intro processes
    exact .cons ⟨rfl, List.forall₂_same.mpr (fun _ _ => .inl rfl)⟩ .nil
  have hfirst : List.Forall₂ (SameCard Blanked) [{ testCard with processes := testCard.processes }]
      [{ testCard with processes := blankedProcesses }] :=
    .cons ⟨rfl, .cons (.inr rfl) (.cons (.inr rfl) (.cons (.inl rfl) .nil))⟩ .nil
  refine ⟨⟨?_, by decide +kernel, by decide +kernel⟩, by decide +kernel⟩
  exact .cons ⟨rfl, hsame _⟩ (.cons ⟨rfl, hsame _⟩ (.cons ⟨rfl, hfirst⟩ (.cons ⟨rfl, hsame _⟩
    (.cons ⟨rfl, hsame _⟩ .nil))))

end Runs

end CardScope.Attribution
