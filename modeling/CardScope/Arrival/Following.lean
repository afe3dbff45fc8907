import CardScope.Arrival.Views
import CardScope.Ingestion.Intake

/-! # The store follows its cards

After any new reports of one node the live state, the first sightings and the timelines in the
store are what the machine of each card says of these reports.
-/

namespace CardScope.Arrival
open Library Model Hub Ingestion Integration

/-- The store of node `n` after the reports `done`, in the order of their arrival. -/
structure Follows (n : String) (done : List Snapshot) (st : Store) : Prop where
  samples : ∀ r, r ∈ st.samples ↔ ∃ s ∈ done, sampleRow s = r
  live : ∃ row, st.nodes.find? n = some row ∧ ∀ u,
    row.sampleAt = (CardState.run u {} done).sampleAt ∧
      (row.snapshot.Lists u ↔ (CardState.run u {} done).live = true)
  first : ∀ u, firstSighting st n u = (CardState.run u {} done).first
  timelines : ∀ u b p, (∃ x ∈ st.lanePoints n u b, visible x = p) ↔
    ∃ s ∈ done, Seen u b (CardState.run u {} done).gaps s ∧ view u s = p
  others : ∀ m, m ≠ n → ∀ u b, st.lanePoints m u b = []

variable {n : String} {done : List Snapshot} {now : ℤ} {st tx st' : Store} {s full : Snapshot}
  {node : NodeRow}

theorem follows_freshStore (nodes : Table NodeRow NodeRow.id) (hn : nodes.HasKey n) :
    Follows n [] (freshStore nodes) := by
  constructor
  · exact fun r => iff_of_false (Table.not_mem_empty r) (by simp)
  · obtain ⟨row, hrow, rfl⟩ := hn
    refine ⟨row.unreported, ?_, fun u => ⟨rfl, iff_of_false ?_ Bool.false_ne_true⟩⟩
    · exact Table.find?_eq_some.mpr ⟨List.mem_map_of_mem hrow, rfl⟩
    · rintro ⟨g, ⟨⟩, -⟩
  · exact fun u => rfl
  · exact fun u b p => iff_of_false (by rintro ⟨x, ⟨⟩, -⟩) (by simp)
  · exact fun m _ u b => rfl

/-- The report leaves a gap exactly when the hub carries the card over. -/
theorem Follows.full_lists (hf : Follows n done st) (h : Recorded now st s node full tx st')
    (hn : s.nodeID = n) (u : String) :
    full.Lists u ↔ s.Lists u ∨ (CardState.run u {} done).Gap s := by
  obtain ⟨row, hrow, hlive⟩ := hf.live
  rw [← hn, h.registered] at hrow
  obtain rfl : node = row := Option.some.inj hrow
  rw [h.full_lists, seenBy_iff, hn, hf.first, (hlive u).2]
  rfl

theorem visible_card (h : Recorded now st s node full tx st') {g : GPU} (hg : g ∈ full.gpus) :
    visible (pointOf s g) = view g.uuid s := by
  rcases h.mem_full hg with hg | ⟨hl, c, hc⟩
  · exact (view_of_mem h.accepted.uuids_nodup hg).symm
  · rw [view_of_not_lists hl, hc, visible_queryFailed]

theorem Follows.live_step (hf : Follows n done st) (hc : Consistent st n)
    (h : Recorded now st s node full tx st') (hn : s.nodeID = n) :
    ∃ row, st'.nodes.find? n = some row ∧ ∀ u,
      row.sampleAt = ((CardState.run u {} done).step u s).sampleAt ∧
        (row.snapshot.Lists u ↔ ((CardState.run u {} done).step u s).live = true) := by
  obtain ⟨node', hnode, hlive⟩ := hf.live
  rw [← hn, h.registered] at hnode
  obtain rfl : node = node' := Option.some.inj hnode
  subst hn
  obtain ⟨row, hrow, hat, hlists⟩ := h.live
  refine ⟨row, hrow, fun u => ?_⟩
  obtain ⟨hsample, hold⟩ := hlive u
  -- a card of the live state was first seen by then
  have hseen : node.snapshot.Lists u → s.atMs > node.sampleAt → SeenBy st s.nodeID u s.atMs := by
    rintro ⟨g, hg, rfl⟩ hnewer
    obtain ⟨r, hr, hk, hfirst⟩ := hc.live_gpu node h.node_mem.1 h.node_mem.2 g hg
    exact ⟨r, Table.find?_eq_some.mpr ⟨hr, hk⟩, hfirst.trans hnewer.le⟩
  by_cases hs : s.Lists u
  · rw [CardState.step_of_lists hs]
    refine ⟨by rw [hat, hsample], ?_⟩
    rw [hlists, h.full_lists, ← hsample, Bool.or_eq_true, decide_eq_true_eq, ← hold]
    by_cases hnewer : s.atMs > node.sampleAt
    · simp [hnewer, hs]
    · simp [hnewer]
  · rw [CardState.step_of_not_lists hs]
    refine ⟨by rw [hat, hsample], ?_⟩
    rw [hlists, h.full_lists, ← hold]
    by_cases hnewer : s.atMs > node.sampleAt
    · rw [if_pos hnewer]
      constructor
      · rintro ((hl | ⟨-, hl, -⟩) | ⟨-, hl⟩)
        · exact absurd hl hs
        · exact hl
        · exact hl
      · intro hl
        by_cases hok : s.gpuStatus = "ok"
        · exact .inr ⟨hok, hl⟩
        · exact .inl (.inr ⟨hok, hl, hseen hl hnewer⟩)
    · rw [if_neg hnewer]

theorem CardState.sighted_of_gap {c : CardState} (h : c.Gap s) : sighted c.first s.atMs = c.first := by
  obtain ⟨-, -, t, ht, hle⟩ := h
  rw [Option.mem_def.mp ht, sighted, Option.elim_some, min_eq_left hle]

theorem Follows.first_step (hf : Follows n done st) (h : Recorded now st s node full tx st')
    (hn : s.nodeID = n) (u : String) :
    firstSighting st' n u = ((CardState.run u {} done).step u s).first := by
  have hfirst := h.firstSighting u
  rw [hn, hf.first u] at hfirst
  rw [hfirst]
  by_cases hs : s.Lists u
  · rw [if_pos ((hf.full_lists h hn u).mpr (.inl hs)), CardState.step_of_lists hs]
    rfl
  · rw [CardState.step_of_not_lists hs]
    by_cases hgap : (CardState.run u {} done).Gap s
    · rw [if_pos ((hf.full_lists h hn u).mpr (.inr hgap)), CardState.sighted_of_gap hgap]
    · rw [if_neg (fun hl => ((hf.full_lists h hn u).mp hl).elim hs hgap)]

theorem exists_mem_snoc {P : Snapshot → Prop} :
    (∃ x ∈ done ++ [s], P x) ↔ (∃ x ∈ done, P x) ∨ P s := by
  simp [or_and_right, exists_or]

/-- A report that is not new to the timelines is one of the reports before. -/
theorem CardState.seen_step {c : CardState} {u b : String} {x : Snapshot} (hx : x ≠ s) :
    Seen u b (c.step u s).gaps x ↔ Seen u b c.gaps x := by
  unfold Seen CardState.step
  split_ifs with hs hgap
  · rfl
  · rw [List.mem_cons, or_iff_right hx]
  · rfl

theorem CardState.seen_self {c : CardState} {u b : String} (hgaps : s ∉ c.gaps) :
    Seen u b (c.step u s).gaps s ↔ s.bootID = b ∧ (s.Lists u ∨ c.Gap s) := by
  unfold Seen
  apply and_congr_right
  intro _
  by_cases hs : s.Lists u
  · simp [hs]
  · rw [CardState.step_of_not_lists hs]
    apply or_congr_right
    by_cases hgap : c.Gap s
    · simp [hgap]
    · simp [hgap, hgaps]

theorem Follows.timelines_step (hf : Follows n done st) (h : Recorded now st s node full tx st')
    (hn : s.nodeID = n) (hs : s ∉ done) (u b : String) (p : Point) :
    (∃ x ∈ st'.lanePoints n u b, visible x = p) ↔
      ∃ x ∈ done ++ [s], Seen u b ((CardState.run u {} done).step u s).gaps x ∧ view u x = p := by
  have hgaps : s ∉ (CardState.run u {} done).gaps := fun hg =>
    hs (((CardState.run_sound done).2.2 s hg).1)
  have hold : (∃ x ∈ done, Seen u b ((CardState.run u {} done).step u s).gaps x ∧ view u x = p) ↔
      ∃ x ∈ st.lanePoints n u b, visible x = p := by
    rw [hf.timelines]
    refine exists_congr (fun x => and_congr_right (fun hx => ?_))
    have hne : x ≠ s := by
      rintro rfl
      exact hs hx
    rw [CardState.seen_step hne]
  have hnew : (s.nodeID = n ∧ s.bootID = b ∧ ∃ g ∈ full.gpus, g.uuid = u ∧
      visible (pointOf s g) = p) ↔
      Seen u b ((CardState.run u {} done).step u s).gaps s ∧ view u s = p := by
    rw [CardState.seen_self hgaps, ← hf.full_lists h hn u]
    constructor
    · rintro ⟨-, hb, g, hg, rfl, rfl⟩
      exact ⟨⟨hb, g, hg, rfl⟩, (visible_card h hg).symm⟩
    · rintro ⟨⟨hb, g, hg, rfl⟩, rfl⟩
      exact ⟨hn, hb, g, hg, rfl, visible_card h hg⟩
  rw [exists_mem_snoc, hold, ← hnew]
  constructor
  · rintro ⟨x, hx, rfl⟩
    rcases (h.mem_lanePoints n u b x).mp hx with ⟨hn', hb, g, hg, hu, rfl⟩ | hx
    · exact .inr ⟨hn', hb, g, hg, hu, rfl⟩
    · exact .inl ⟨x, hx, rfl⟩
  · rintro (⟨x, hx, rfl⟩ | ⟨hn', hb, g, hg, hu, rfl⟩)
    · exact ⟨x, (h.mem_lanePoints n u b x).mpr (.inr hx), rfl⟩
    · exact ⟨_, (h.mem_lanePoints n u b _).mpr (.inl ⟨hn', hb, g, hg, hu, rfl⟩), rfl⟩

/-- A new report takes the store and the machines of all cards one step further. -/
theorem Follows.step (hf : Follows n done st) (hc : Consistent st n)
    (h : Recorded now st s node full tx st') (hn : s.nodeID = n) :
    Follows n (done ++ [s]) st' := by
  have hs : s ∉ done := by
    intro hs
    exact h.fresh ⟨sampleRow s, (hf.samples _).mpr ⟨s, hs, rfl⟩, rfl⟩
  have hrun : ∀ u, CardState.run u {} (done ++ [s]) = (CardState.run u {} done).step u s := fun u =>
    CardState.run_append u {} done [s]
  constructor
  · intro r
    rw [h.samples_eq, Table.mem_insert, hf.samples, exists_mem_snoc, or_comm, eq_comm]
  · simp only [hrun]
    exact hf.live_step hc h hn
  · intro u
    rw [hrun]
    exact hf.first_step h hn u
  · intro u b p
    rw [hrun]
    exact hf.timelines_step h hn hs u b p
  · intro m hm u b
    apply List.eq_nil_iff_forall_not_mem.mpr
    intro x hx
    rcases (h.mem_lanePoints m u b x).mp hx with ⟨hm', -⟩ | hx
    · exact hm (hm'.symm.trans hn)
    · rw [hf.others m hm] at hx
      exact absurd hx List.not_mem_nil

/-- Accepted reports of one node with distinct identities are all stored, and the store follows
its cards. -/
theorem follows_runIngest (nodes : Table NodeRow NodeRow.id) (hreg : nodes.HasKey n)
    (calls : List (ℤ × Snapshot)) (hnode : ∀ call ∈ calls, call.2.nodeID = n)
    (hvalid : ∀ call ∈ calls, validate call.1 call.2 = .ok ())
    (hids : ((calls.map Prod.snd).map Snapshot.identity).Nodup) :
    Follows n (calls.map Prod.snd) (runIngest (freshStore nodes) calls) ∧
      Consistent (runIngest (freshStore nodes) calls) n := by
  have h : Intake nodes n calls := ⟨hreg, hnode, hvalid, hids⟩
  refine ⟨?_, consistent_runIngest (consistent_freshStore nodes n) calls⟩
  apply h.induction (I := fun done st => Follows n done st) (follows_freshStore nodes hreg)
  intro done now s st node full tx st' _ hn _ hc hrec hf
  exact hf.step hc hrec hn

end CardScope.Arrival
