import CardScope.Integration.Weights

/-! # Bounds on the rollups

The rollups are the sum of two parts: what the stored edges contribute, and what edges
contributed that a cleanup has deleted. Both parts are sums of contributions of sound points,
so every row is non-negative and within its bounds, and no user row exceeds the row of its
card.
-/

namespace CardScope.Hub.Measures

/-- The bounds of one row. -/
structure Valid (m : Measures) : Prop where
  occupied_nonneg : 0 ≤ m.occupied
  weighted_nonneg : 0 ≤ m.weighted
  occupancyValid_nonneg : 0 ≤ m.occupancyValid
  utilValid_nonneg : 0 ≤ m.utilValid
  memorySum_nonneg : 0 ≤ m.memorySum
  memoryValid_nonneg : 0 ≤ m.memoryValid
  attributionValid_nonneg : 0 ≤ m.attributionValid
  occupied_le : m.occupied ≤ m.occupancyValid
  attributionValid_le : m.attributionValid ≤ m.occupancyValid
  weighted_le : m.weighted ≤ m.utilValid

theorem valid_zero : Valid 0 := by
  constructor <;> exact le_rfl

theorem Valid.add {m n : Measures} (hm : m.Valid) (hn : n.Valid) : (m + n).Valid := by
  constructor
  · exact add_nonneg hm.occupied_nonneg hn.occupied_nonneg
  · exact add_nonneg hm.weighted_nonneg hn.weighted_nonneg
  · exact add_nonneg hm.occupancyValid_nonneg hn.occupancyValid_nonneg
  · exact add_nonneg hm.utilValid_nonneg hn.utilValid_nonneg
  · exact add_nonneg hm.memorySum_nonneg hn.memorySum_nonneg
  · exact add_nonneg hm.memoryValid_nonneg hn.memoryValid_nonneg
  · exact add_nonneg hm.attributionValid_nonneg hn.attributionValid_nonneg
  · exact add_le_add hm.occupied_le hn.occupied_le
  · exact add_le_add hm.attributionValid_le hn.attributionValid_le
  · exact add_le_add hm.weighted_le hn.weighted_le

theorem Valid.smul {m : Measures} (hm : m.Valid) {c : ℚ} (hc : 0 ≤ c) : (c • m).Valid := by
  constructor
  · exact mul_nonneg hc hm.occupied_nonneg
  · exact mul_nonneg hc hm.weighted_nonneg
  · exact mul_nonneg hc hm.occupancyValid_nonneg
  · exact mul_nonneg hc hm.utilValid_nonneg
  · exact mul_nonneg hc hm.memorySum_nonneg
  · exact mul_nonneg hc hm.memoryValid_nonneg
  · exact mul_nonneg hc hm.attributionValid_nonneg
  · exact mul_le_mul_of_nonneg_left hm.occupied_le hc
  · exact mul_le_mul_of_nonneg_left hm.attributionValid_le hc
  · exact mul_le_mul_of_nonneg_left hm.weighted_le hc

end CardScope.Hub.Measures

namespace CardScope.Integration
open Library Model Hub Ingestion

def cardKey (k : RollupKey) : RollupKey := { k with user := "" }

/-- Numbers under every key that stay within their bounds and those of their card. -/
structure Coherent (F : RollupKey → Measures) : Prop where
  valid : ∀ k, (F k).Valid
  parent : ∀ k, (F k).occupied ≤ (F (cardKey k)).occupied

section Coherent

variable {F G : RollupKey → Measures}

theorem coherent_zero : Coherent (fun _ => 0) :=
  ⟨fun _ => Measures.valid_zero, fun _ => le_rfl⟩

theorem Coherent.add (hF : Coherent F) (hG : Coherent G) : Coherent (fun k => F k + G k) :=
  ⟨fun k => (hF.valid k).add (hG.valid k), fun k => add_le_add (hF.parent k) (hG.parent k)⟩

theorem coherent_sum {ι : Type*} {l : List ι} {f : ι → RollupKey → Measures}
    (h : ∀ i ∈ l, Coherent (f i)) : Coherent (fun k => (l.map (fun i => f i k)).sum) := by
  induction l with
  | nil => exact coherent_zero
  | cons i l ih =>
    simp only [List.map_cons, List.sum_cons]
    exact (h i List.mem_cons_self).add (ih (fun j hj => h j (List.mem_cons_of_mem _ hj)))

/-- Clearing the rows of some buckets, for the card and its users alike. -/
theorem Coherent.clear (hF : Coherent F) (p : RollupKey → Bool)
    (hp : ∀ k, p (cardKey k) = p k) : Coherent (fun k => if p k then 0 else F k) := by
  constructor
  · intro k
    split_ifs
    · exact Measures.valid_zero
    · exact hF.valid k
  · intro k
    rw [hp]
    split_ifs
    · exact le_rfl
    · exact hF.parent k

end Coherent

section Interval

variable {node uuid : String} {a b : Point}

theorem valid_cardMeasures (h : Sound a) : (cardMeasures a 1).Valid := by
  have hutil : 0 ≤ a.util.elim (0 : ℚ) (fun util => 1 * util / 100) ∧
      a.util.elim (0 : ℚ) (fun util => 1 * util / 100) ≤ if a.util.isSome then 1 else 0 := by
    cases hu : a.util with
    | none => simp
    | some u =>
      obtain ⟨hlo, hhi⟩ := h.util_bound u hu
      simp only [Option.elim_some, Option.isSome_some, if_true]
      constructor <;> linarith
  have hmemory : 0 ≤ a.memory.elim (0 : ℚ) (fun memory => 1 * memory) := by
    cases hm : a.memory with
    | none => exact le_rfl
    | some m => simpa using h.memory_nonneg m hm
  have hite : ∀ c : Bool, (0 : ℚ) ≤ if c then 1 else 0 := by
    intro c
    cases c <;> norm_num
  have hand : ∀ c d : Bool, (if (c && d) then (1 : ℚ) else 0) ≤ if c then 1 else 0 := by
    intro c d
    cases c <;> cases d <;> norm_num
  constructor
  · exact hite _
  · exact hutil.1
  · exact hite _
  · exact hite _
  · exact hmemory
  · exact hite _
  · exact hite _
  · exact hand _ _
  · exact hand _ _
  · exact hutil.2

theorem valid_userMeasures : (userMeasures 1).Valid := by
  constructor <;> norm_num [userMeasures]

theorem valid_rate (h : Sound a) (user : String) :
    (rate a user).Valid ∧ (rate a user).occupied ≤ (rate a "").occupied := by
  by_cases hu : user = ""
  · subst hu
    rw [rate_card h]
    exact ⟨valid_cardMeasures h, le_rfl⟩
  · rw [rate_card h, rate_user a hu]
    split_ifs with hon
    · obtain ⟨hvalid, w, hw, -⟩ := hon
      refine ⟨valid_userMeasures, ?_⟩
      simp [cardMeasures, userMeasures, hvalid, h.users_occupied w hw]
    · exact ⟨Measures.valid_zero, (valid_cardMeasures h).occupied_nonneg⟩

def SameBucket (k l : RollupKey) : Prop :=
  l.node = k.node ∧ l.uuid = k.uuid ∧ l.res = k.res ∧ l.bucket = k.bucket

/-- The seconds that an interval spends in the bucket of a key. -/
def share (node uuid : String) (a b : Point) (k : RollupKey) : ℚ :=
  if Bridged a b ∧ (k.res = 60000 ∨ k.res = 3600000) ∧ k.node = node ∧ k.uuid = uuid then
    ((((slices k.res a.atMs b.atMs).map
      (fun s => if decide (s.bucket = k.bucket) then s.span else 0)).sum : ℤ) : ℚ) / 1000
  else 0

theorem share_nonneg (node uuid : String) (a b : Point) (k : RollupKey) :
    0 ≤ share node uuid a b k := by
  unfold share
  split_ifs with h
  · refine div_nonneg (Int.cast_nonneg (List.sum_nonneg (fun x hx => ?_))) (by norm_num)
    obtain ⟨s, hs, rfl⟩ := List.mem_map.mp hx
    have hspan := (mem_slices (by omega) hs).2.1
    split_ifs
    · unfold Slice.span
      omega
    · exact le_rfl
  · exact le_rfl

/-- What an interval adds under a key: the rate of its earlier state over the time it spends
there. -/
theorem total_share (node uuid : String) (a b : Point) (k : RollupKey) :
    total (fun m => m = k) (contributions node uuid a b) = share node uuid a b k • rate a k.user := by
  by_cases h : Bridged a b ∧ (k.res = 60000 ∨ k.res = 3600000) ∧ k.node = node ∧ k.uuid = uuid
  · rw [share, if_pos h]
    obtain ⟨hb, hres, rfl, rfl⟩ := h
    rw [← total_contributions hb hres k.user (fun bucket => bucket = k.bucket)]
    congr 1
    funext m
    cases m
    cases k
    simp_all [rowsOf]
  · rw [share, if_neg h, zero_smul]
    refine total_eq_zero (fun c hc => decide_eq_false (fun hk => h ?_))
    obtain ⟨hn, hu⟩ := key_of_mem_contributions hc
    obtain ⟨hb, res, hres, s, -, hcase⟩ := mem_contributions hc
    have hr : c.key.res = res := by
      rcases hcase with rfl | ⟨-, user, -, rfl⟩ <;> rfl
    rw [hk] at hn hu hr
    exact ⟨hb, hr ▸ hres, hn, hu⟩

theorem total_key (node uuid : String) (a b : Point) (k : RollupKey) :
    ∃ c : ℚ, 0 ≤ c ∧ ∀ l, SameBucket k l →
      total (fun m => m = l) (contributions node uuid a b) = c • rate a l.user := by
  refine ⟨share node uuid a b k, share_nonneg node uuid a b k, fun l hl => ?_⟩
  obtain ⟨hn, hu, hr, hb⟩ := hl
  rw [total_share, share, share, hn, hu, hr, hb]

theorem coherent_contributions (h : Sound a) :
    Coherent (fun k => total (fun m => m = k) (contributions node uuid a b)) := by
  constructor
  · intro k
    obtain ⟨c, hc, htotal⟩ := total_key node uuid a b k
    rw [htotal k ⟨rfl, rfl, rfl, rfl⟩]
    exact (valid_rate h k.user).1.smul hc
  · intro k
    obtain ⟨c, hc, htotal⟩ := total_key node uuid a b k
    rw [htotal k ⟨rfl, rfl, rfl, rfl⟩, htotal (cardKey k) ⟨rfl, rfl, rfl, rfl⟩]
    exact mul_le_mul_of_nonneg_left (valid_rate h k.user).2 hc

/-- With the contribution of a user comes one of the whole card in the same bucket. -/
theorem cardKey_mem_contributions {c : Contribution} (hc : c ∈ contributions node uuid a b) :
    ∃ d ∈ contributions node uuid a b, d.key = cardKey c.key := by
  obtain ⟨hb, res, hres, s, hs, hcase⟩ := mem_contributions hc
  refine ⟨cardContribution node uuid a res s, ?_, ?_⟩
  · rw [contributions_of_bridged hb]
    refine List.mem_flatMap.mpr ⟨res, by simpa using hres, List.mem_flatMap.mpr ⟨s, hs, ?_⟩⟩
    rw [sliceContributions_eq]
    exact List.mem_cons_self
  · rcases hcase with rfl | ⟨-, user, -, rfl⟩ <;> rfl

end Interval

section Run

variable {now : ℤ} {st tx st' : Store} {s full : Snapshot} {node : NodeRow} {g : GPU}

/-- What deleted edges contributed: the rollups without the stored edges. -/
def frozen (edges : Table EdgeRow EdgeRow.key) (rollups : Table RollupRow RollupRow.key)
    (k : RollupKey) : Measures :=
  sumOn rollups (fun m => m = k) - edges.sum (fun e => total (fun m => m = k) e.data)

theorem frozen_eq (st : Store) (k : RollupKey) : frozen st.edges st.rollups k =
    st.rollupSum (fun m => m = k) - st.edgeSum (fun m => m = k) := rfl

/-- The frozen part is coherent, and every row has the row of its card. -/
structure Bounded (edges : Table EdgeRow EdgeRow.key) (rollups : Table RollupRow RollupRow.key) :
    Prop where
  coherent : Coherent (frozen edges rollups)
  parents : ∀ k, rollups.HasKey k → rollups.HasKey (cardKey k)

theorem Bounded.replaceEdge {n u boot : String} {a b : Point} (hb : Bounded tx.edges tx.rollups)
    (hd : ∀ e ∈ tx.edges, Interval Sound e) :
    Bounded (replaceEdge tx n u boot a b).edges (replaceEdge tx n u boot a b).rollups := by
  constructor
  · have hsame : frozen (Hub.replaceEdge tx n u boot a b).edges
        (Hub.replaceEdge tx n u boot a b).rollups = frozen tx.edges tx.rollups := by
      funext k
      rw [frozen_eq, frozen_eq, rollupSum_replaceEdge, edgeSum_replaceEdge]
      abel
    rw [hsame]
    exact hb.coherent
  · intro k hk
    rw [replaceEdge_rollups, hasKey_applyContributions, hasKey_applyContributions] at hk ⊢
    rcases hk with ⟨c, hc, rfl⟩ | ⟨c, hc, rfl⟩ | hk
    · exact .inl (cardKey_mem_contributions hc)
    · refine .inr (.inl ?_)
      unfold Store.edgeData at hc ⊢
      cases hf : tx.edges.find? (n, u, boot, b.seq) with
      | none =>
        rw [hf] at hc
        exact absurd hc List.not_mem_nil
      | some e =>
        obtain ⟨a', b', -, -, hdata⟩ := hd e (Table.find?_eq_some.mp hf).1
        rw [hf, Option.elim_some, hdata] at hc
        rw [Option.elim_some, hdata]
        exact cardKey_mem_contributions hc
    · exact .inr (.inr (hb.parents k hk))

theorem bounded_of_recorded (h : Recorded now st s node full tx st')
    (hb : Bounded st.edges st.rollups) (hc : Consistent st s.nodeID) (hd : Drawn Sound st) :
    Bounded st'.edges st'.rollups :=
  h.links hc hd (fun _ => sound_pointOf h.accepted)
    (fun _ _ _ _ _ _ hedges _ _ hI => hI.replaceEdge hedges) hb

/-- No bucket of a retained edge is old enough to be deleted. -/
theorem not_expired_of_retained (hd : Drawn Sound st) {e : EdgeRow} (he : e ∈ st.edges)
    (hkept : rightRetained st now e = true) {c : Contribution} (hc : c ∈ e.data) :
    expired now c.key = false := by
  obtain ⟨a, ha, r, hr, hk, hdata⟩ := hd.edges e he
  have hright := rightRetained_at hkept hr hk
  rw [hdata] at hc
  obtain ⟨⟨-, hgap⟩, res, hres, s, hs, hcase⟩ := mem_contributions hc
  obtain ⟨hstart, -, -, hbucket, -⟩ := mem_slices (by omega) hs
  have hkey : c.key.bucket = s.bucket := by
    rcases hcase with rfl | ⟨-, user, -, rfl⟩ <;> rfl
  have hinterval := ha.interval_le
  rw [r.at_data] at hgap
  rw [expired, decide_eq_false_iff_not, hkey]
  unfold rawCutoff at hright
  omega

theorem bounded_prune (hb : Bounded st.edges st.rollups) (hd : Drawn Sound st) (now : ℤ) :
    Bounded (prune now st).edges (prune now st).rollups := by
  have hcard : ∀ k, expired now (cardKey k) = expired now k := fun k => rfl
  constructor
  · have hfrozen : frozen (prune now st).edges (prune now st).rollups = fun k =>
        if expired now k then 0 else frozen st.edges st.rollups k +
          ((st.edges.keep (fun e => !rightRetained st now e)).rows.map
            (fun e => total (fun m => m = k) e.data)).sum := by
      funext k
      unfold frozen
      split_ifs with hexp
      · have hrollups : sumOn (prune now st).rollups (fun m => m = k) = 0 := by
          apply List.sum_eq_zero
          intro x hx
          obtain ⟨r, hr, rfl⟩ := List.mem_map.mp hx
          apply if_neg
          intro hk
          have hkept := (Table.mem_keep.mp hr).2
          rw [of_decide_eq_true hk, hexp] at hkept
          exact absurd hkept (by decide)
        have hedges : (prune now st).edges.sum (fun e => total (fun m => m = k) e.data) = 0 := by
          apply List.sum_eq_zero
          intro x hx
          obtain ⟨e, he, rfl⟩ := List.mem_map.mp hx
          obtain ⟨he, hkept⟩ := Table.mem_keep.mp he
          refine total_eq_zero (fun c hc => decide_eq_false (fun hk => ?_))
          have hnot := not_expired_of_retained hd he hkept hc
          rw [hk, hexp] at hnot
          exact absurd hnot (by decide)
        rw [hrollups, hedges, sub_zero]
      · have hrollups : sumOn (prune now st).rollups (fun m => m = k) =
            sumOn st.rollups (fun m => m = k) := by
          refine Table.sum_keep_of_zero _ _ _ (fun r _ hdel => if_neg (fun hk => hexp ?_))
          rw [of_decide_eq_true hk] at hdel
          simpa using hdel
        rw [hrollups, ← Table.sum_keep_add st.edges (rightRetained st now)]
        simp only [prune, Table.sum]
        abel
    rw [hfrozen]
    refine (hb.coherent.add (coherent_sum (fun e he => ?_))).clear _ hcard
    obtain ⟨a, b, ha, -, hdata⟩ := hd.interval (Table.mem_keep.mp he).1
    rw [hdata]
    exact coherent_contributions ha
  · rintro k ⟨r, hr, rfl⟩
    obtain ⟨hr, hkept⟩ := Table.mem_keep.mp hr
    obtain ⟨r', hr', hk⟩ := hb.parents r.key ⟨r, hr, rfl⟩
    refine ⟨r', Table.mem_keep.mpr ⟨hr', ?_⟩, hk⟩
    rw [hk, hcard]
    exact hkept

theorem coherent_rollups (hb : Bounded st.edges st.rollups) (hd : Drawn Sound st) :
    Coherent st.rollup := by
  have hedges : Coherent (fun k => st.edges.sum (fun e => total (fun m => m = k) e.data)) := by
    apply coherent_sum
    intro e he
    obtain ⟨a, b, ha, -, hdata⟩ := hd.interval he
    rw [hdata]
    exact coherent_contributions ha
  have hsum : st.rollup = fun k => frozen st.edges st.rollups k +
      st.edges.sum (fun e => total (fun m => m = k) e.data) := by
    funext k
    rw [frozen, sub_add_cancel, ← Store.rollupSum_eq]
    rfl
  rw [hsum]
  exact hb.coherent.add hedges

end Run

theorem bounded_freshStore (nodes : Table NodeRow NodeRow.id) :
    Bounded (freshStore nodes).edges (freshStore nodes).rollups := by
  have hzero : frozen (freshStore nodes).edges (freshStore nodes).rollups = fun _ => 0 :=
    funext (fun _ => sub_self (0 : Measures))
  refine ⟨?_, fun k hk => absurd hk (by rintro ⟨_, ⟨⟩, _⟩)⟩
  rw [hzero]
  exact coherent_zero

theorem rollup_of_mem {st : Store} {r : RollupRow} (hr : r ∈ st.rollups) :
    st.rollup r.key = r.measures := by
  rw [Store.rollup, Table.find?_eq_some.mpr ⟨hr, rfl⟩]
  rfl

theorem bounded_run (nodes : Table NodeRow NodeRow.id) (events : List Event) :
    Bounded (run (freshStore nodes) events).edges (run (freshStore nodes) events).rollups ∧
      Drawn Sound (run (freshStore nodes) events) :=
  run_induction (P := Sound) (fun st => Bounded st.edges st.rollups) nodes events
    (fun _ _ _ h _ => sound_pointOf h) (bounded_freshStore nodes)
    (fun _ _ _ _ _ _ _ _ h hc hd hb => bounded_of_recorded h hb hc hd)
    (fun now _ _ hd hb => bounded_prune hb hd now)

theorem valid_rollups (nodes : Table NodeRow NodeRow.id) (events : List Event) {r : RollupRow}
    (hr : r ∈ (run (freshStore nodes) events).rollups) : r.measures.Valid := by
  obtain ⟨hb, hd⟩ := bounded_run nodes events
  rw [← rollup_of_mem hr]
  exact (coherent_rollups hb hd).valid r.key

/-- After any uploads and cleanups every row is within its bounds, and every user row has a row
of its card with at least its occupied time. -/
theorem rollups_bounded (nodes : Table NodeRow NodeRow.id) (events : List Event) :
    ∀ r ∈ (run (freshStore nodes) events).rollups, r.measures.Valid ∧
      (r.key.user ≠ "" → ∃ r' ∈ (run (freshStore nodes) events).rollups,
        r'.key = { r.key with user := "" } ∧ r.measures.occupied ≤ r'.measures.occupied) := by
  obtain ⟨hb, hd⟩ := bounded_run nodes events
  intro r hr
  refine ⟨valid_rollups nodes events hr, fun _ => ?_⟩
  obtain ⟨r', hr', hk⟩ := hb.parents r.key ⟨r, hr, rfl⟩
  have hle := (coherent_rollups hb hd).parent r.key
  rw [← hk, rollup_of_mem hr, rollup_of_mem hr'] at hle
  exact ⟨r', hr', hk, hle⟩

/-- The row of one user of a card that two users share. -/
theorem rollups_bounded_shared :
    ∃ r ∈ (run (freshStore (node "n")) [.ingest 1700000071000 (sample "n" 1 1700000041000),
        .ingest 1700000071000 (sample "n" 2 1700000046000), .prune 1700000071000]).rollups,
      r.key.user = "1000" ∧ r.measures.Valid := by
  have hrow : Table.HasKey (run (freshStore (node "n"))
      [.ingest 1700000071000 (sample "n" 1 1700000041000),
        .ingest 1700000071000 (sample "n" 2 1700000046000), .prune 1700000071000]).rollups
      ⟨"n", "GPU-test", "1000", 60000, 1700000040000⟩ := by
    decide +kernel
  obtain ⟨r, hr, hk⟩ := hrow
  exact ⟨r, hr, by rw [hk], (rollups_bounded (node "n") _ r hr).1⟩

end CardScope.Integration
