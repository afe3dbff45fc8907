import CardScope.Ingestion.Points
import CardScope.Integration.Weights

/-! # Rollups integrate the timelines

The points of one card and one client start, in time order, form a timeline. While sampling
times are distinct, the edges of a node are exactly the intervals of its timelines and
the rollups are the sums of these intervals, whatever the order of arrival.
-/

namespace CardScope.Hub.Store
open Library Model

def timeline (st : Store) (node uuid boot : String) : List Point :=
  chronological Point.atMs (st.lanePoints node uuid boot)

/-- The stored intervals of one card and client start by the sample they end in. -/
def laneEdges (st : Store) (node uuid boot : String) (seq : ℤ) : Option (List Contribution) :=
  (st.edges.find? (node, uuid, boot, seq)).map EdgeRow.data

/-- What the intervals of a timeline add to the rollups whose key satisfies `p`. -/
def laneIntegral (st : Store) (node uuid boot : String) (p : RollupKey → Bool) : Measures :=
  chainSum (fun a b => total p (contributions node uuid a b)) (st.timeline node uuid boot)

def boots (st : Store) (node uuid : String) : List String :=
  ((st.points.rows.filter (fun r => r.node = node ∧ r.uuid = uuid)).map PointRow.boot).dedup

def cardIntegral (st : Store) (node uuid : String) (p : RollupKey → Bool) : Measures :=
  ((st.boots node uuid).map (fun boot => st.laneIntegral node uuid boot p)).sum

theorem edgeData_eq (st : Store) (node uuid boot : String) (seq : ℤ) :
    st.edgeData node uuid boot seq = (st.laneEdges node uuid boot seq).getD [] := by
  unfold edgeData laneEdges
  cases st.edges.find? (node, uuid, boot, seq) <;> rfl

theorem lanePoints_seq_nodup (st : Store) (node uuid boot : String) :
    ((st.lanePoints node uuid boot).map Point.seq).Nodup := by
  unfold lanePoints
  rw [List.map_map, List.nodup_map_iff_inj_on ((List.filter_sublist).nodup st.points.nodup.of_map)]
  intro r hr r' hr' he
  obtain ⟨hr, hk⟩ := List.mem_filter.mp hr
  obtain ⟨hr', hk'⟩ := List.mem_filter.mp hr'
  simp only [decide_eq_true_eq] at hk hk'
  apply Table.eq_of_key hr hr'
  have hseq : r.seq = r'.seq := by
    rw [← r.seq_data, ← r'.seq_data]
    exact he
  rw [PointRow.key, PointRow.key, hk.1, hk.2.1, hk.2.2, hk'.1, hk'.2.1, hk'.2.2, hseq]

theorem lanePoints_eq_nil {st : Store} {node uuid boot : String}
    (h : boot ∉ st.boots node uuid) : st.lanePoints node uuid boot = [] := by
  rw [List.eq_nil_iff_forall_not_mem]
  intro p hp
  obtain ⟨r, hr, hn, hu, hb, -⟩ := mem_lanePoints.mp hp
  refine h (List.mem_dedup.mpr (List.mem_map.mpr ⟨r, List.mem_filter.mpr ⟨hr, ?_⟩, hb⟩))
  simp [hn, hu]

end CardScope.Hub.Store

namespace CardScope.Integration
open Library Model Hub Ingestion

section Neighbours

variable {st : Store} {n u b : String} {t : ℤ} {l₁ l₂ : List Point}

theorem atMs_comp_data : Point.atMs ∘ PointRow.data = PointRow.atMs := funext PointRow.at_data

theorem mem_timeline (st : Store) (n u b : String) (p : Point) :
    p ∈ st.timeline n u b ↔ ∃ r ∈ st.laneRows n u b, r.data = p :=
  mem_chronological.trans List.mem_map

theorem pointBefore_eq (hnodup : ((st.lanePoints n u b).map Point.atMs).Nodup)
    (hl : st.timeline n u b = l₁ ++ l₂) (h₁ : ∀ x ∈ l₁, x.atMs < t) (h₂ : ∀ x ∈ l₂, t < x.atMs) :
    st.pointBefore n u b t = l₁.getLast? := by
  have hasc : Ascending Point.atMs (st.timeline n u b) := chronological_ascending hnodup
  rw [hl] at hasc
  unfold Store.pointBefore
  rw [← atMs_comp_data]
  apply latest_map_eq hasc.of_append_left
  intro x
  have hx := mem_timeline st n u b x
  rw [hl, List.mem_append] at hx
  constructor
  · intro hmem
    obtain ⟨r, hr, rfl⟩ := hx.mp (.inl hmem)
    exact ⟨r, List.mem_filter.mpr ⟨hr, by simpa using h₁ _ hmem⟩, rfl⟩
  · rintro ⟨r, hr, rfl⟩
    obtain ⟨hr, hlt⟩ := List.mem_filter.mp hr
    apply (hx.mpr ⟨r, hr, rfl⟩).resolve_right
    intro hmem
    exact absurd (h₂ _ hmem) (not_lt.mpr (by simpa using hlt : r.data.atMs < t).le)

theorem pointAfter_eq (hnodup : ((st.lanePoints n u b).map Point.atMs).Nodup)
    (hl : st.timeline n u b = l₁ ++ l₂) (h₁ : ∀ x ∈ l₁, x.atMs < t) (h₂ : ∀ x ∈ l₂, t < x.atMs) :
    st.pointAfter n u b t = l₂.head? := by
  have hasc : Ascending Point.atMs (st.timeline n u b) := chronological_ascending hnodup
  rw [hl] at hasc
  unfold Store.pointAfter
  rw [← atMs_comp_data]
  apply earliest_map_eq (List.pairwise_append.mp hasc).2.1
  intro x
  have hx := mem_timeline st n u b x
  rw [hl, List.mem_append] at hx
  constructor
  · intro hmem
    obtain ⟨r, hr, rfl⟩ := hx.mp (.inr hmem)
    exact ⟨r, List.mem_filter.mpr ⟨List.mem_reverse.mpr hr, by simpa using h₂ _ hmem⟩, rfl⟩
  · rintro ⟨r, hr, rfl⟩
    obtain ⟨hr, hgt⟩ := List.mem_filter.mp hr
    apply (hx.mpr ⟨r, List.mem_reverse.mp hr, rfl⟩).resolve_left
    intro hmem
    exact absurd (h₁ _ hmem) (not_lt.mpr (by simpa using hgt : t < r.data.atMs).le)

end Neighbours

section Linking

variable {tx : Store} {n u b : String} {p : Point} {before after : Option Point}

theorem laneEdges_replaceEdge (tx : Store) (n u b : String) (a c : Point) (n' u' b' : String)
    (i : ℤ) : (replaceEdge tx n u b a c).laneEdges n' u' b' i =
      if (n, u, b, c.seq) = (n', u', b', i) then some (contributions n u a c)
      else tx.laneEdges n' u' b' i := by
  unfold Store.laneEdges
  rw [replaceEdge_edges, Table.find?_put]
  by_cases h : (n, u, b, c.seq) = (n', u', b', i) <;> simp [EdgeRow.key, h]

/-- Linking writes the intervals on both sides of the point and no other. -/
theorem laneEdges_linkNeighbours (tx : Store) (n u b : String) (p : Point)
    (before after : Option Point) (n' u' b' : String) (i : ℤ) :
    (linkNeighbours tx n u b p before after).laneEdges n' u' b' i =
      if (n, u, b) = (n', u', b') ∧ after.map Point.seq = some i then
        after.map (contributions n u p)
      else if (n, u, b) = (n', u', b') ∧ p.seq = i ∧ before.isSome then
        before.map (fun a => contributions n u a p)
      else tx.laneEdges n' u' b' i := by
  cases before <;> cases after <;>
    simp [linkNeighbours, laneEdges_replaceEdge, and_assoc]

theorem edgeData_linkNeighbours (tx : Store) (n u b : String) (p : Point)
    (before after : Option Point) (n' u' b' : String) (i : ℤ) :
    (linkNeighbours tx n u b p before after).edgeData n' u' b' i =
      if (n, u, b) = (n', u', b') ∧ after.map Point.seq = some i then
        after.elim [] (contributions n u p)
      else if (n, u, b) = (n', u', b') ∧ p.seq = i ∧ before.isSome then
        before.elim [] (fun a => contributions n u a p)
      else tx.edgeData n' u' b' i := by
  rw [Store.edgeData_eq, Store.edgeData_eq, laneEdges_linkNeighbours]
  split_ifs
  · cases after <;> rfl
  · cases before <;> rfl
  · rfl

/-- Linking a new point retracts the interval that ends in its later neighbour and adds those on
both sides of the point. -/
theorem rollupSum_linkNeighbours (q : RollupKey → Bool) (hnew : tx.edgeData n u b p.seq = [])
    (hseq : ∀ c, after = some c → c.seq ≠ p.seq) :
    (linkNeighbours tx n u b p before after).rollupSum q =
      tx.rollupSum q - after.elim 0 (fun c => total q (tx.edgeData n u b c.seq)) +
        bridge (fun a c => total q (contributions n u a c)) before (some p) +
        bridge (fun a c => total q (contributions n u a c)) (some p) after := by
  cases before with
  | none =>
    cases after with
    | none => simp [linkNeighbours, bridge]
    | some c => simp [linkNeighbours, bridge, rollupSum_replaceEdge]
  | some a =>
    cases after with
    | none => simp [linkNeighbours, bridge, rollupSum_replaceEdge, hnew]
    | some c =>
      have hc : (replaceEdge tx n u b a p).edgeData n u b c.seq = tx.edgeData n u b c.seq := by
        rw [edgeData_replaceEdge, if_neg (by simpa using (hseq c rfl).symm)]
      simp only [linkNeighbours, bridge, rollupSum_replaceEdge, hnew, hc, total_nil,
        Option.elim_some]
      abel

variable {l₁ l₂ : List Point}

theorem linkNeighbours_insert (tx : Store)
    (hold : Linked Point.seq (contributions n u) (l₁ ++ l₂) (tx.laneEdges n u b))
    (hid : ((l₁ ++ p :: l₂).map Point.seq).Nodup) :
    Linked Point.seq (contributions n u) (l₁ ++ p :: l₂)
      ((linkNeighbours tx n u b p l₁.getLast? l₂.head?).laneEdges n u b) ∧
    ∀ q, (linkNeighbours tx n u b p l₁.getLast? l₂.head?).rollupSum q = tx.rollupSum q -
      chainSum (fun a c => total q (contributions n u a c)) (l₁ ++ l₂) +
      chainSum (fun a c => total q (contributions n u a c)) (l₁ ++ p :: l₂) := by
  have hsub : ((l₁ ++ l₂).map Point.seq).Nodup :=
    ((List.sublist_cons_self p l₂).append_left l₁ |>.map Point.seq).nodup hid
  have hfresh : ∀ x ∈ l₁ ++ l₂, x.seq ≠ p.seq := by
    intro x hx he
    have hperm : ((p :: (l₁ ++ l₂)).map Point.seq).Nodup :=
      (List.perm_middle.map Point.seq).nodup_iff.mp hid
    rw [List.map_cons, List.nodup_cons] at hperm
    exact hperm.1 (List.mem_map.mpr ⟨x, hx, he⟩)
  have hseq : ∀ c, l₂.head? = some c → c.seq ≠ p.seq := fun c hc =>
    hfresh c (List.mem_append_right _ (List.mem_of_mem_head? hc))
  have hnew : tx.laneEdges n u b p.seq = none := by
    cases he : tx.laneEdges n u b p.seq with
    | none => rfl
    | some cs =>
      obtain ⟨a, c, hac, hc⟩ := hold.only _ _ he
      exact absurd hc (hfresh c hac.mem.2)
  constructor
  · refine hold.insert hid ?_ ?_ ?_
    · rw [laneEdges_linkNeighbours, if_neg]
      · cases l₁.getLast? <;> simp [hnew]
      · rintro ⟨-, he⟩
        obtain ⟨c, hc, he⟩ := Option.map_eq_some_iff.mp he
        exact hseq c hc he
    · intro c hc
      rw [laneEdges_linkNeighbours, if_pos ⟨rfl, by rw [hc]; rfl⟩, hc]
      rfl
    · intro i hp hc
      rw [laneEdges_linkNeighbours, if_neg (fun h => hc h.2), if_neg (fun h => hp h.2.1.symm)]
  · intro q
    have hnone : tx.edgeData n u b p.seq = [] := by
      rw [Store.edgeData_eq, hnew]
      rfl
    have hright : l₂.head?.elim 0 (fun c => total q (tx.edgeData n u b c.seq)) =
        bridge (fun a c => total q (contributions n u a c)) l₁.getLast? l₂.head? := by
      cases hc : l₂.head? with
      | none => cases l₁.getLast? <;> rfl
      | some c =>
        rw [Option.elim_some, Store.edgeData_eq, hold.at_right hsub hc]
        cases l₁.getLast? <;> rfl
    rw [rollupSum_linkNeighbours q hnone hseq, hright, chainSum_insert]
    abel

theorem rollupSum_linkNeighbours_of_other (q : RollupKey → Bool)
    (hq : ∀ k, q k → ¬ (k.node = n ∧ k.uuid = u))
    (hedges : ∀ i, total q (tx.edgeData n u b i) = 0) :
    (linkNeighbours tx n u b p before after).rollupSum q = tx.rollupSum q := by
  have hw : ∀ a c, total q (contributions n u a c) = 0 := fun a c =>
    total_contributions_of_other hq
  have hreplace : ∀ a c, (replaceEdge tx n u b a c).rollupSum q = tx.rollupSum q := by
    intro a c
    rw [rollupSum_replaceEdge, hedges, hw, sub_zero, add_zero]
  cases before with
  | none =>
    cases after with
    | none => rfl
    | some c => exact hreplace p c
  | some a =>
    cases after with
    | none => exact hreplace a p
    | some c =>
      change (replaceEdge (replaceEdge tx n u b a p) n u b p c).rollupSum q = _
      rw [rollupSum_replaceEdge, hreplace, hw, edgeData_replaceEdge]
      split_ifs
      · rw [hw, sub_zero, add_zero]
      · rw [hedges, sub_zero, add_zero]

end Linking

/-- The measurements of node `n` agree: its sampling times are distinct, its edges are the
intervals of its timelines and the rollups of each card are the sums of these intervals. -/
structure Integrated (st : Store) (n : String) : Prop where
  times : ∀ u b, ((st.lanePoints n u b).map Point.atMs).Nodup
  edges : ∀ u b, Linked Point.seq (contributions n u) (st.timeline n u b) (st.laneEdges n u b)
  sums : ∀ u (q : RollupKey → Bool), (∀ k, q k → k.node = n ∧ k.uuid = u) →
    ∀ B : Finset String, (∀ b, b ∉ B → st.lanePoints n u b = []) →
      st.rollupSum q = ∑ b ∈ B, st.laneIntegral n u b q

section Observe

variable {s : Snapshot} {tx tx' : Store} {g : GPU} {n u b : String} {P : Point → Prop}

theorem timeline_seq_nodup (st : Store) (n u b : String) :
    ((st.timeline n u b).map Point.seq).Nodup :=
  ((List.perm_insertionSort _ _).map Point.seq).nodup_iff.mpr (st.lanePoints_seq_nodup n u b)

theorem total_edgeData_of_other (hd : Drawn P tx) {q : RollupKey → Bool}
    (hq : ∀ k, q k → ¬ (k.node = n ∧ k.uuid = u)) (i : ℤ) : total q (tx.edgeData n u b i) = 0 := by
  unfold Store.edgeData
  cases hf : tx.edges.find? (n, u, b, i) with
  | none => rfl
  | some e =>
    obtain ⟨he, hk⟩ := Table.find?_eq_some.mp hf
    obtain ⟨a, c, -, -, hdata⟩ := hd.interval he
    simp only [EdgeRow.key, Prod.mk.injEq] at hk
    rw [Option.elim_some, hdata, hk.1, hk.2.1]
    exact total_contributions_of_other hq

theorem observe_timeline (hkey : ¬ tx.points.HasKey (pointRow s g).key)
    (h : observe s tx g = .ok tx')
    (hnodup : ((tx.lanePoints s.nodeID g.uuid s.bootID).map Point.atMs).Nodup)
    (htie : ∀ x ∈ tx.lanePoints s.nodeID g.uuid s.bootID, x.atMs ≠ s.atMs) :
    ∃ l₁ l₂, tx.timeline s.nodeID g.uuid s.bootID = l₁ ++ l₂ ∧
      tx'.timeline s.nodeID g.uuid s.bootID = l₁ ++ pointOf s g :: l₂ ∧
      linked s tx g hkey = linkNeighbours
        { tx with points := tx.points.insert (pointRow s g) hkey } s.nodeID g.uuid s.bootID
        (pointOf s g) l₁.getLast? l₂.head? := by
  obtain ⟨l₁, l₂, hl, hl', h₁, h₂⟩ :=
    chronological_cons (pointOf s g) (tx.lanePoints s.nodeID g.uuid s.bootID) htie
  have hlane : tx'.lanePoints s.nodeID g.uuid s.bootID =
      pointOf s g :: tx.lanePoints s.nodeID g.uuid s.bootID := by
    rw [observe_lanePoints h, if_pos ⟨rfl, rfl, rfl⟩]
  refine ⟨l₁, l₂, hl, ?_, ?_⟩
  · rw [Store.timeline, hlane, hl']
  · have hbefore := pointBefore_eq hnodup hl h₁ h₂
    have hafter := pointAfter_eq hnodup hl h₁ h₂
    rw [← hbefore, ← hafter]
    rfl

theorem observe_linked (h : observe s tx g = .ok tx') : ∃ hkey,
    tx'.laneEdges = (linked s tx g hkey).laneEdges ∧
      tx'.rollupSum = (linked s tx g hkey).rollupSum := by
  obtain ⟨hkey, hstore⟩ := observe_ok h
  refine ⟨hkey, ?_, ?_⟩
  · rw [hstore]
    rfl
  · rw [hstore]
    rfl

theorem observe_timeline_of_other (h : observe s tx g = .ok tx')
    (hne : ¬ (s.nodeID = n ∧ g.uuid = u ∧ s.bootID = b)) :
    tx'.timeline n u b = tx.timeline n u b := by
  rw [Store.timeline, observe_lanePoints h, if_neg hne, Store.timeline]

theorem observe_laneEdges_of_other (h : observe s tx g = .ok tx')
    (hne : ¬ (s.nodeID = n ∧ g.uuid = u ∧ s.bootID = b)) :
    tx'.laneEdges n u b = tx.laneEdges n u b := by
  obtain ⟨hkey, hedges, -⟩ := observe_linked h
  funext i
  rw [hedges, linked, laneEdges_linkNeighbours, if_neg, if_neg]
  · rfl
  · rintro ⟨he, -⟩
    exact hne (by simpa using he)
  · rintro ⟨he, -⟩
    exact hne (by simpa using he)

theorem observe_rollupSum_of_other (hd : Drawn P tx) (h : observe s tx g = .ok tx')
    {q : RollupKey → Bool} (hq : ∀ k, q k → ¬ (k.node = s.nodeID ∧ k.uuid = g.uuid)) :
    tx'.rollupSum q = tx.rollupSum q := by
  obtain ⟨hkey, -, hsums⟩ := observe_linked h
  rw [hsums, linked]
  exact rollupSum_linkNeighbours_of_other q hq (total_edgeData_of_other hd hq)

/-- On the timeline of the observed card the intervals and the sums change together. -/
theorem Integrated.observe_lane (hi : Integrated tx s.nodeID)
    (htie : ∀ x ∈ tx.lanePoints s.nodeID g.uuid s.bootID, x.atMs ≠ s.atMs)
    (h : Hub.observe s tx g = .ok tx') :
    Linked Point.seq (contributions s.nodeID g.uuid) (tx'.timeline s.nodeID g.uuid s.bootID)
      (tx'.laneEdges s.nodeID g.uuid s.bootID) ∧
    ∀ q, tx'.rollupSum q = tx.rollupSum q - tx.laneIntegral s.nodeID g.uuid s.bootID q +
      tx'.laneIntegral s.nodeID g.uuid s.bootID q := by
  obtain ⟨hkey, hedges, hsums⟩ := observe_linked h
  obtain ⟨l₁, l₂, hl, hl', hlinked⟩ := observe_timeline hkey h (hi.times g.uuid s.bootID) htie
  have hid := timeline_seq_nodup tx' s.nodeID g.uuid s.bootID
  have hold := hi.edges g.uuid s.bootID
  rw [hl'] at hid
  rw [hl] at hold
  rw [hedges, hsums, hlinked]
  unfold Store.laneIntegral
  rw [hl, hl']
  exact linkNeighbours_insert
    { tx with points := tx.points.insert (pointRow s g) hkey } hold hid

theorem sum_laneIntegral_observe (h : observe s tx g = .ok tx') (q : RollupKey → Bool)
    {B : Finset String} (hmem : s.bootID ∈ B) :
    ∑ b ∈ B, tx'.laneIntegral s.nodeID g.uuid b q =
      ∑ b ∈ B, tx.laneIntegral s.nodeID g.uuid b q -
        tx.laneIntegral s.nodeID g.uuid s.bootID q +
        tx'.laneIntegral s.nodeID g.uuid s.bootID q := by
  have hrest : ∑ b ∈ B.erase s.bootID, tx'.laneIntegral s.nodeID g.uuid b q =
      ∑ b ∈ B.erase s.bootID, tx.laneIntegral s.nodeID g.uuid b q := by
    apply Finset.sum_congr rfl
    intro b hb
    have hne : ¬ (s.nodeID = s.nodeID ∧ g.uuid = g.uuid ∧ s.bootID = b) :=
      fun he => Finset.ne_of_mem_erase hb he.2.2.symm
    rw [Store.laneIntegral, observe_timeline_of_other h hne, Store.laneIntegral]
  rw [← Finset.add_sum_erase B _ hmem, ← Finset.add_sum_erase B _ hmem, hrest]
  abel

/-- One observation without a tie keeps the measurements in agreement. -/
theorem Integrated.observe (hi : Integrated tx n) (hd : Drawn P tx)
    (htie : s.nodeID = n → ∀ x ∈ tx.lanePoints n g.uuid s.bootID, x.atMs ≠ s.atMs)
    (h : Hub.observe s tx g = .ok tx') : Integrated tx' n := by
  have hlane := observe_lanePoints h n
  constructor
  · intro u b
    rw [hlane]
    split_ifs with hcard
    · obtain ⟨hn, hu, hb⟩ := hcard
      rw [List.map_cons, List.nodup_cons]
      refine ⟨fun hmem => ?_, hi.times u b⟩
      obtain ⟨x, hx, he⟩ := List.mem_map.mp hmem
      rw [← hu, ← hb] at hx
      exact htie hn x hx he
    · exact hi.times u b
  · intro u b
    by_cases hcard : s.nodeID = n ∧ g.uuid = u ∧ s.bootID = b
    · obtain ⟨rfl, rfl, rfl⟩ := hcard
      exact (hi.observe_lane (htie rfl) h).1
    · rw [observe_timeline_of_other h hcard, observe_laneEdges_of_other h hcard]
      exact hi.edges u b
  · intro u q hq B hB
    have hB₀ : ∀ b, b ∉ B → tx.lanePoints n u b = [] := by
      intro b hb
      have hnil := hB b hb
      rw [hlane] at hnil
      split_ifs at hnil
      exact hnil
    by_cases hcard : s.nodeID = n ∧ g.uuid = u
    · obtain ⟨rfl, rfl⟩ := hcard
      have hmem : s.bootID ∈ B := by
        by_contra hb
        have hnil := hB _ hb
        rw [hlane, if_pos ⟨rfl, rfl, rfl⟩] at hnil
        exact List.cons_ne_nil _ _ hnil
      rw [(hi.observe_lane (htie rfl) h).2 q, hi.sums _ q hq B hB₀, sum_laneIntegral_observe h q hmem]
    · have hq' : ∀ k, q k → ¬ (k.node = s.nodeID ∧ k.uuid = g.uuid) := fun k hk he =>
        hcard ⟨he.1.symm.trans (hq k hk).1, he.2.symm.trans (hq k hk).2⟩
      rw [observe_rollupSum_of_other hd h hq', hi.sums u q hq B hB₀]
      apply Finset.sum_congr rfl
      intro b _
      rw [Store.laneIntegral, Store.laneIntegral,
        observe_timeline_of_other h (fun he => hcard ⟨he.1, he.2.1⟩)]

end Observe

section Call

variable {now : ℤ} {st tx st' : Store} {s full : Snapshot} {node : NodeRow} {n : String}
  {P : Point → Prop}

/-- An upload whose cards have no point of its sampling time keeps the agreement. -/
theorem integrated_of_recorded (h : Recorded now st s node full tx st') (hi : Integrated st n)
    (hd : Drawn P st) (hc : Consistent st s.nodeID)
    (hfree : s.nodeID = n → ∀ g ∈ full.gpus, ∀ x ∈ st.lanePoints n g.uuid s.bootID,
      x.atMs ≠ s.atMs)
    (hP : ∀ g, Observable s g → P (pointOf s g)) : Integrated st' n := by
  have hcards : Integrated tx n ∧ Drawn P tx := by
    refine h.induction hc (I := fun t => Integrated t n ∧ Drawn P t)
      ⟨⟨hi.times, hi.edges, hi.sums⟩, ⟨hd.points, hd.edges⟩⟩ ?_
    rintro g hg t t' ⟨hint, hdrawn⟩ - hlane hstep
    constructor
    · refine hint.observe hdrawn (fun hn x hx => ?_) hstep
      rw [h.nodeID_full] at hn
      subst hn
      rw [h.bootID_full, hlane] at hx
      rw [h.atMs_full]
      exact hfree rfl g hg x hx
    · refine hdrawn.observe ?_ hstep
      rw [h.pointOf_full]
      exact hP g (h.observable hg)
  obtain ⟨hpoints, hedges, -, hrollups, -⟩ := h.measurements
  have hlane : st'.lanePoints = tx.lanePoints := by
    unfold Store.lanePoints
    rw [hpoints]
  constructor
  · rw [hlane]
    exact hcards.1.times
  · unfold Store.timeline Store.laneEdges
    rw [hlane, hedges]
    exact hcards.1.edges
  · unfold Store.rollupSum Store.laneIntegral Store.timeline
    rw [hlane, hrollups]
    exact hcards.1.sums

theorem integrated_freshStore (nodes : Table NodeRow NodeRow.id) (n : String) :
    Integrated (freshStore nodes) n := by
  constructor
  · exact fun u b => List.nodup_nil
  · refine fun u b => ⟨fun a c h => h.elim, fun i v h => ?_⟩
    exact absurd h (by simp [Store.laneEdges, freshStore])
  · intro u q _ B _
    exact (Finset.sum_eq_zero (fun b _ => rfl)).symm

end Call

/-- No two stored samples of one node and client start carry the same time. -/
def DistinctTimes (st : Store) : Prop := ∀ r ∈ st.samples.rows, ∀ r' ∈ st.samples.rows,
  r.node = r'.node → r.boot = r'.boot → r.atMs = r'.atMs → r.seq = r'.seq

instance (st : Store) : Decidable (DistinctTimes st) :=
  inferInstanceAs (Decidable (∀ r ∈ st.samples.rows, ∀ r' ∈ st.samples.rows,
    r.node = r'.node → r.boot = r'.boot → r.atMs = r'.atMs → r.seq = r'.seq))

theorem free_of_distinct {now : ℤ} {st tx st' : Store} {s full : Snapshot} {node : NodeRow}
    (h : Recorded now st s node full tx st') (hc : Consistent st s.nodeID)
    (hdistinct : DistinctTimes st') (u : String) :
    ∀ x ∈ st.lanePoints s.nodeID u s.bootID, x.atMs ≠ s.atMs := by
  intro x hx hat
  obtain ⟨p, hp, hn, -, hb, rfl⟩ := Store.mem_lanePoints.mp hx
  obtain ⟨r, hr, hk, hrat⟩ := hc.point_sample p hp hn
  rw [p.at_data] at hat
  have hmem : ∀ t, t = sampleRow s ∨ t ∈ st.samples → t ∈ st'.samples := by
    intro t ht
    rw [h.samples_eq]
    exact Table.mem_insert.mpr ht
  have hkey : r.node = s.nodeID ∧ r.boot = s.bootID := by
    simp only [SampleRow.key, Prod.mk.injEq] at hk
    exact ⟨hk.1, hk.2.1.trans hb⟩
  have hseq := hdistinct r (hmem r (.inr hr)) (sampleRow s) (hmem _ (.inl rfl)) hkey.1 hkey.2
    (hrat.trans hat)
  refine h.fresh ⟨r, hr, ?_⟩
  rw [SampleRow.key, hkey.1, hkey.2, hseq]
  rfl

theorem integrated_runIngest (nodes : Table NodeRow NodeRow.id) (calls : List (ℤ × Snapshot))
    (hdistinct : DistinctTimes (runIngest (freshStore nodes) calls)) :
    (∀ n, Integrated (runIngest (freshStore nodes) calls) n) ∧
      (∀ n, Consistent (runIngest (freshStore nodes) calls) n) ∧
      Drawn (fun _ => True) (runIngest (freshStore nodes) calls) := by
  induction calls using List.reverseRecOn with
  | nil =>
    exact ⟨integrated_freshStore nodes, consistent_freshStore nodes, drawn_freshStore _ nodes⟩
  | append_singleton calls call ih =>
    unfold runIngest at hdistinct ih ⊢
    rw [List.foldl_append, List.foldl_cons, List.foldl_nil] at hdistinct ⊢
    rcases ingested_cases call.1 (runIngest (freshStore nodes) calls) call.2 with
      h | ⟨node, full, tx, h⟩
    · unfold runIngest at h
      rw [h] at hdistinct ⊢
      exact ih hdistinct
    · have hbefore : DistinctTimes (runIngest (freshStore nodes) calls) := by
        intro r hr r' hr'
        have hmem : ∀ t ∈ (runIngest (freshStore nodes) calls).samples,
            t ∈ (ingested call.1 (runIngest (freshStore nodes) calls) call.2).samples := by
          intro t ht
          rw [h.samples_eq]
          exact Table.mem_insert.mpr (.inr ht)
        exact hdistinct r (hmem r hr) r' (hmem r' hr')
      obtain ⟨hi, hc, hd⟩ := ih hbefore
      refine ⟨fun n => ?_, fun n => h.consistent (hc n), h.drawn hd (fun _ _ => trivial)⟩
      refine integrated_of_recorded h (hi n) hd (hc _) (fun hn g _ => ?_) (fun _ _ => trivial)
      rw [← hn]
      exact free_of_distinct h (hc _) hdistinct g.uuid

/-- After any uploads with distinct sampling times, every rollup is what the stored points
integrate to: the retractions and additions on the edges agree with a computation from scratch. -/
theorem rollup_eq_cardIntegral (nodes : Table NodeRow NodeRow.id) (calls : List (ℤ × Snapshot))
    (hdistinct : DistinctTimes (runIngest (freshStore nodes) calls)) (k : RollupKey) :
    (runIngest (freshStore nodes) calls).rollup k =
      (runIngest (freshStore nodes) calls).cardIntegral k.node k.uuid (fun l => l = k) := by
  have hi := (integrated_runIngest nodes calls hdistinct).1 k.node
  let st := runIngest (freshStore nodes) calls
  have hboots : ∀ b, b ∉ (st.boots k.node k.uuid).toFinset → st.lanePoints k.node k.uuid b = [] :=
    fun b hb => Store.lanePoints_eq_nil (fun hmem => hb (List.mem_toFinset.mpr hmem))
  rw [← Store.rollupSum_eq, hi.sums k.uuid _ (by simp +contextual) _ hboots, Store.cardIntegral]
  exact List.sum_toFinset (fun b => st.laneIntegral k.node k.uuid b (fun l => l = k))
    (List.nodup_dedup _)

/-- The uploads of three samples, the second of them late and repeated. -/
def lateCalls : List (ℤ × Snapshot) := [1, 3, 2, 2].map (fun seq =>
  (1700000071000, sample "n" seq (1700000041000 + (seq - 1) * 5000)))

theorem rollup_eq_cardIntegral_late :
    DistinctTimes (runIngest (freshStore (node "n")) lateCalls) ∧
    ∀ k, (runIngest (freshStore (node "n")) lateCalls).rollup k =
      (runIngest (freshStore (node "n")) lateCalls).cardIntegral k.node k.uuid (fun l => l = k) :=
  have hdistinct : DistinctTimes (runIngest (freshStore (node "n")) lateCalls) := by decide +kernel
  ⟨hdistinct, rollup_eq_cardIntegral (node "n") lateCalls hdistinct⟩

example : (runIngest (freshStore (node "n")) lateCalls).rollup
    ⟨"n", "GPU-test", "", 60000, 1700000040000⟩ =
      { occupied := 10, weighted := 5, occupancyValid := 10, utilValid := 10, memorySum := 80,
        memoryValid := 10, attributionValid := 10 } := by
  decide +kernel

end CardScope.Integration
