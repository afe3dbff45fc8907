import CardScope.Integration.Arrivals

/-! # How far a state extends

The hub extends the state of a card to its next point. That point can lie behind the next sample:
a successful enumeration without the card leaves none, so the time in which the card was
absent is counted when the card comes back soon enough.
-/

namespace CardScope.Integration
open Library Model Hub Ingestion

variable {n u b : String} {now : ℤ} {st tx st' : Store} {s full : Snapshot} {node : NodeRow}
  {reports : List Snapshot} {a p : Point} {res : ℤ}

/-- What the hub counts of a card in seconds: known occupancy, known use, and one user's. -/
inductive Count where
  | occupancy
  | util
  | user (uid : String)

namespace Count

def seconds (st : Store) (n u : String) (res : ℤ) : Count → ℚ
  | occupancy => (st.rollupSum (cardRows n u res)).occupancyValid
  | util => (st.rollupSum (cardRows n u res)).utilValid
  | user uid => (st.rollupSum (rowsOf n u uid res (fun _ => true))).occupied

def uid : Count → String
  | occupancy => ""
  | util => ""
  | user uid => uid

def column : Count → Measures →ₗ[ℚ] ℚ
  | occupancy => ⟨⟨Measures.occupancyValid, Measures.add_occupancyValid⟩,
      fun c a => Measures.smul_occupancyValid a c⟩
  | util => ⟨⟨Measures.utilValid, Measures.add_utilValid⟩, fun c a => Measures.smul_utilValid a c⟩
  | user _ => ⟨⟨Measures.occupied, Measures.add_occupied⟩, fun c a => Measures.smul_occupied a c⟩

theorem seconds_eq (c : Count) (st : Store) (n u : String) (res : ℤ) :
    c.seconds st n u res = c.column (st.rollupSum (rowsOf n u c.uid res (fun _ => true))) := by
  cases c <;> rfl

end Count

def Known (p : Point) : Prop := p.processValid ∨ p.util.isSome

instance (p : Point) : Decidable (Known p) :=
  inferInstanceAs (Decidable (p.processValid ∨ p.util.isSome))

section Rates

theorem Count.rate_cases (ha : Sound a) (c : Count) :
    c.column (rate a c.uid) = 0 ∨ Known a ∧ c.column (rate a c.uid) = 1 := by
  have hcard : ∀ v : Bool, (v → Known a) → (if v then (1 : ℚ) else 0) = 0 ∨
      Known a ∧ (if v then (1 : ℚ) else 0) = 1 := by
    intro v hv
    cases v
    · exact .inl rfl
    · exact .inr ⟨hv rfl, rfl⟩
  cases c with
  | occupancy =>
    rw [Count.uid, rate_card ha]
    exact hcard a.processValid .inl
  | util =>
    rw [Count.uid, rate_card ha]
    exact hcard a.util.isSome .inr
  | user uid =>
    rw [Count.uid]
    by_cases hu : uid = ""
    · rw [hu, rate_card ha]
      exact hcard (a.processValid && a.occupied) (fun h => .inl (by simp_all))
    · rw [rate_user a hu]
      split_ifs with hv
      · exact .inr ⟨.inl hv.1, rfl⟩
      · exact .inl rfl

theorem Known.exists_rate (ha : Sound a) (h : Known a) :
    ∃ c : Count, c.column (rate a c.uid) = 1 := by
  rcases h with h | h
  · refine ⟨.occupancy, ?_⟩
    rw [Count.uid, rate_card ha]
    exact if_pos h
  · refine ⟨.util, ?_⟩
    rw [Count.uid, rate_card ha]
    exact if_pos h

end Rates

def accepted : Store → List (ℤ × Snapshot) → List Snapshot
  | _, [] => []
  | st, call :: rest => (if Storable call.1 st call.2 then [call.2] else []) ++
      accepted (ingested call.1 st call.2) rest

/-- The seconds from a report to the next one, when it lists the card. -/
def listedGap (u : String) (s t : Snapshot) : ℚ :=
  if s.Lists u then ((t.atMs - s.atMs : ℤ) : ℚ) / 1000 else 0

/-- The seconds from each report that lists the card to the next report. -/
def listedSeconds (u : String) (reports : List Snapshot) : ℚ := chainSum (listedGap u) reports

/-- The counted seconds are at most those that begin with a report of the card. -/
def Within (st : Store) (n u : String) (reports : List Snapshot) : Prop :=
  ∀ (c : Count) (res : ℤ), res = 60000 ∨ res = 3600000 →
    c.seconds st n u res ≤ listedSeconds u reports

/-- From `st` to `st'` the counted seconds grow by the listed ones at most. -/
def GrowsWithin (st st' : Store) (n u : String) (reports reports' : List Snapshot) : Prop :=
  ∀ (c : Count) (res : ℤ), res = 60000 ∨ res = 3600000 →
    c.seconds st' n u res - c.seconds st n u res ≤
      listedSeconds u reports' - listedSeconds u reports

/-- The report extends a state of the card over a sample that left no point of it. -/
def Overextends (st : Store) (s : Snapshot) (u : String) : Prop := Observes st s u ∧
  ∃ a ∈ st.pointBefore s.nodeID u s.bootID s.atMs, Known a ∧
    s.atMs - a.atMs ≤ 2 * a.interval * 1000 ∧
    ∃ r ∈ st.samples.rows, r.node = s.nodeID ∧ r.boot = s.bootID ∧
      a.atMs < r.atMs ∧ r.atMs < s.atMs

instance (st : Store) (s : Snapshot) (u : String) : Decidable (Overextends st s u) :=
  inferInstanceAs (Decidable (Observes st s u ∧
    ∃ a ∈ st.pointBefore s.nodeID u s.bootID s.atMs, Known a ∧
      s.atMs - a.atMs ≤ 2 * a.interval * 1000 ∧
      ∃ r ∈ st.samples.rows, r.node = s.nodeID ∧ r.boot = s.bootID ∧
        a.atMs < r.atMs ∧ r.atMs < s.atMs))

theorem accepted_append (st : Store) (l₁ l₂ : List (ℤ × Snapshot)) :
    accepted st (l₁ ++ l₂) = accepted st l₁ ++ accepted (runIngest st l₁) l₂ := by
  induction l₁ generalizing st with
  | nil => rfl
  | cons call l₁ ih =>
    rw [List.cons_append, accepted, ih, accepted, List.append_assoc]
    rfl

theorem accepted_sublist (st : Store) (calls : List (ℤ × Snapshot)) :
    (accepted st calls).Sublist (calls.map Prod.snd) := by
  induction calls generalizing st with
  | nil => exact List.Sublist.refl _
  | cons call rest ih =>
    rw [accepted, List.map_cons]
    split_ifs
    · exact (ih _).cons_cons _
    · exact (ih _).cons _

theorem listedSeconds_snoc (u : String) (reports : List Snapshot) (s : Snapshot) :
    listedSeconds u (reports ++ [s]) =
      listedSeconds u reports + bridge (listedGap u) reports.getLast? (some s) := by
  rw [listedSeconds, chainSum_append]
  exact add_zero _

theorem listedGap_nonneg {s t : Snapshot} (h : s.atMs < t.atMs) : 0 ≤ listedGap u s t := by
  have hlt : (0 : ℚ) ≤ ((t.atMs - s.atMs : ℤ) : ℚ) := by exact_mod_cast (sub_pos.mpr h).le
  unfold listedGap
  split_ifs
  · positivity
  · exact le_rfl

/-- What the store knows of the card after the reports of one client start in time order. -/
structure Mirrors (n u b : String) (reports : List Snapshot) (st : Store) : Prop where
  samples : ∀ r, r ∈ st.samples ↔ ∃ s ∈ reports, sampleRow s = r
  own : ∀ s ∈ reports, s.nodeID = n ∧ s.bootID = b
  ascending : Ascending Snapshot.atMs reports
  points : ∀ c, ∀ p ∈ st.lanePoints n u c,
    c = b ∧ ∃ s ∈ reports, s.atMs = p.atMs ∧ (s.Lists u ∨ ¬ Known p)
  listed : ∀ s ∈ reports, s.Lists u → ∃ p ∈ st.lanePoints n u b, p.atMs = s.atMs

theorem mirrors_freshStore (nodes : Table NodeRow NodeRow.id) (n u b : String) :
    Mirrors n u b [] (freshStore nodes) := by
  constructor
  · exact fun r => iff_of_false (Table.not_mem_empty r) (by simp)
  · exact fun s hs => absurd hs List.not_mem_nil
  · exact List.Pairwise.nil
  · exact fun c p hp => absurd hp List.not_mem_nil
  · exact fun s hs => absurd hs List.not_mem_nil

namespace Mirrors

theorem distinctTimes (h : Mirrors n u b reports st) : DistinctTimes st := by
  intro r hr r' hr' _ _ hat
  obtain ⟨s, hs, rfl⟩ := (h.samples r).mp hr
  obtain ⟨s', hs', rfl⟩ := (h.samples r').mp hr'
  rw [h.ascending.inj hs hs' hat]

theorem recorded (h : Mirrors n u b reports st) (hr : Recorded now st s node full tx st')
    (hn : s.nodeID = n) (hb : s.bootID = b) (hnew : ∀ r ∈ reports, r.atMs < s.atMs) :
    Mirrors n u b (reports ++ [s]) st' := by
  constructor
  · intro r
    rw [hr.samples_eq, Table.mem_insert, h.samples]
    simp only [List.mem_append, List.mem_singleton, or_and_right, exists_or, exists_eq_left]
    rw [or_comm, eq_comm]
  · intro r hmem
    rcases List.mem_append.mp hmem with hmem | hmem
    · exact h.own r hmem
    · rw [List.mem_singleton.mp hmem]
      exact ⟨hn, hb⟩
  · refine List.pairwise_append.mpr ⟨h.ascending, List.pairwise_singleton _ _, fun r hmem t ht => ?_⟩
    rw [List.mem_singleton.mp ht]
    exact hnew r hmem
  · intro c p hp
    rcases (hr.mem_lanePoints n u c p).mp hp with ⟨-, hc, g, hg, rfl, rfl⟩ | hp
    · refine ⟨hc.symm.trans hb, s, by simp, rfl, ?_⟩
      rcases hr.mem_full hg with hmem | ⟨-, d, rfl⟩
      · exact .inl ⟨g, hmem, rfl⟩
      · exact .inr (by simp [Known, pointOf, queryFailed])
    · obtain ⟨hc, r, hmem, hat, hkind⟩ := h.points c p hp
      exact ⟨hc, r, List.mem_append_left _ hmem, hat, hkind⟩
  · intro r hmem hl
    rcases List.mem_append.mp hmem with hmem | hmem
    · obtain ⟨p, hp, hat⟩ := h.listed r hmem hl
      exact ⟨p, (hr.mem_lanePoints n u b p).mpr (.inr hp), hat⟩
    · rw [List.mem_singleton.mp hmem] at hl ⊢
      obtain ⟨g, hg, hu⟩ := (hr.full_lists u).mpr (.inl hl)
      exact ⟨pointOf s g, (hr.mem_lanePoints n u b _).mpr (.inl ⟨hn, hb, g, hg, hu, rfl⟩), rfl⟩

theorem rollupSum_eq (h : Mirrors n u b reports st) (hi : Integrated st n) {q : RollupKey → Bool}
    (hq : ∀ k, q k → k.node = n ∧ k.uuid = u) :
    st.rollupSum q =
      chainSum (fun a c => total q (contributions n u a c)) (st.timeline n u b) := by
  have hlanes : ∀ c, c ∉ ({b} : Finset String) → st.lanePoints n u c = [] := fun c hcb =>
    List.eq_nil_iff_forall_not_mem.mpr
      (fun x hx => hcb (Finset.mem_singleton.mpr (h.points c x hx).1))
  rw [hi.sums u q hq {b} hlanes, Finset.sum_singleton]
  rfl

theorem lt_of_mem_timeline (h : Mirrors n u b reports st) (hnew : ∀ r ∈ reports, r.atMs < s.atMs)
    {x : Point} (hx : x ∈ st.timeline n u b) : x.atMs < s.atMs := by
  obtain ⟨-, r, hr, hat, -⟩ := h.points b x (mem_chronological.mp hx)
  rw [← hat]
  exact hnew r hr

end Mirrors

section Step

theorem timeline_snoc_of_recorded (h : Mirrors n u b reports st)
    (hr : Recorded now st s node full tx st') (hn : s.nodeID = n) (hb : s.bootID = b)
    (hnew : ∀ r ∈ reports, r.atMs < s.atMs) (hc : Consistent st n) (hi : Integrated st n)
    (hi' : Integrated st' n) (hobs : Observes st s u) :
    ∃ p, p.atMs = s.atMs ∧ st'.timeline n u b = st.timeline n u b ++ [p] ∧
      st.pointBefore n u b s.atMs = (st.timeline n u b).getLast? := by
  have hdistinct := (h.recorded hr hn hb hnew).distinctTimes
  subst hn hb
  obtain ⟨l₁, l₂, p, hat, -, hl, hl', hbefore, -⟩ :=
    timeline_insert_of_recorded hr hc hi hi' hdistinct hobs
  have hasc : Ascending Point.atMs (l₁ ++ p :: l₂) :=
    hl' ▸ chronological_ascending (hi'.times u s.bootID)
  have hnil : l₂ = [] := by
    apply List.eq_nil_iff_forall_not_mem.mpr
    intro x hx
    have hlate : p.atMs < x.atMs := (List.pairwise_cons.mp (List.pairwise_append.mp hasc).2.1).1 x hx
    have hearly : x.atMs < s.atMs := h.lt_of_mem_timeline hnew (by rw [hl]; simp [hx])
    omega
  subst hnil
  rw [List.append_nil] at hl
  exact ⟨p, hat, by rw [hl', hl], by rw [hbefore, hl]⟩

theorem column_total (hres : res = 60000 ∨ res = 3600000) (c : Count) (a p : Point) :
    c.column (total (rowsOf n u c.uid res (fun _ => true)) (contributions n u a p)) =
      if Bridged a p then ((p.atMs - a.atMs : ℤ) : ℚ) / 1000 * c.column (rate a c.uid) else 0 := by
  split_ifs with hbr
  · rw [total_rowsOf hbr hres, map_smul, smul_eq_mul]
  · rw [contributions_of_not_bridged hbr, total_nil, map_zero]

/-- A report adds to a count what the interval from the point before it adds. -/
theorem seconds_of_recorded (h : Mirrors n u b reports st)
    (hr : Recorded now st s node full tx st') (hn : s.nodeID = n) (hb : s.bootID = b)
    (hnew : ∀ r ∈ reports, r.atMs < s.atMs) (hc : Consistent st n) (hi : Integrated st n)
    (hi' : Integrated st' n) (hobs : Observes st s u) :
    ∃ p, p.atMs = s.atMs ∧ st.pointBefore n u b s.atMs = (st.timeline n u b).getLast? ∧
      ∀ (c : Count) (res : ℤ), res = 60000 ∨ res = 3600000 →
        c.seconds st' n u res - c.seconds st n u res =
          (st.timeline n u b).getLast?.elim 0 (fun a =>
            if Bridged a p then ((p.atMs - a.atMs : ℤ) : ℚ) / 1000 * c.column (rate a c.uid)
            else 0) := by
  obtain ⟨p, hat, hl, hbefore⟩ := timeline_snoc_of_recorded h hr hn hb hnew hc hi hi' hobs
  refine ⟨p, hat, hbefore, fun c res hres => ?_⟩
  have hkeys : ∀ k, rowsOf n u c.uid res (fun _ => true) k → k.node = n ∧ k.uuid = u := by
    intro k hk
    simp only [rowsOf, decide_eq_true_eq] at hk
    exact ⟨hk.1, hk.2.1⟩
  rw [c.seconds_eq, c.seconds_eq, (h.recorded hr hn hb hnew).rollupSum_eq hi' hkeys,
    h.rollupSum_eq hi hkeys, hl, chainSum_append, ← map_sub]
  cases hlast : (st.timeline n u b).getLast? with
  | none => simp [bridge, chainSum]
  | some a =>
    rw [Option.elim_some, ← column_total hres]
    change c.column (_ + total _ (contributions n u a p) + 0 - _) = _
    rw [add_zero, add_sub_cancel_left]

theorem seconds_of_unobserved (h : Mirrors n u b reports st)
    (hr : Recorded now st s node full tx st') (hn : s.nodeID = n) (hb : s.bootID = b)
    (hnew : ∀ r ∈ reports, r.atMs < s.atMs) (hi : Integrated st n) (hi' : Integrated st' n)
    (hobs : ¬ Observes st s u) (c : Count) (res : ℤ) :
    c.seconds st' n u res = c.seconds st n u res := by
  have hkeys : ∀ k, rowsOf n u c.uid res (fun _ => true) k → k.node = n ∧ k.uuid = u := by
    intro k hk
    simp only [rowsOf, decide_eq_true_eq] at hk
    exact ⟨hk.1, hk.2.1⟩
  rw [c.seconds_eq, c.seconds_eq, (h.recorded hr hn hb hnew).rollupSum_eq hi' hkeys,
    h.rollupSum_eq hi hkeys]
  subst hn hb
  rw [timeline_of_unobserved hr hi hi' hobs]

/-- The last point stands at the last report, or before it and the last report left no point. -/
theorem overextends_iff (h : Mirrors n u b reports st) (hn : s.nodeID = n) (hb : s.bootID = b)
    (hnew : ∀ r ∈ reports, r.atMs < s.atMs) (hobs : Observes st s u) (hat : p.atMs = s.atMs)
    (hbefore : st.pointBefore n u b s.atMs = some a) {l : Snapshot}
    (hlast : reports.getLast? = some l) (hearly : a.atMs < s.atMs) :
    Overextends st s u ↔ Known a ∧ Bridged a p ∧ a.atMs < l.atMs := by
  subst hn hb
  unfold Overextends Bridged
  rw [hbefore, hat]
  constructor
  · rintro ⟨-, a', ha', hknown, hgap, r, hr, -, -, hlt, -⟩
    obtain rfl := Option.some.inj ha'
    obtain ⟨t, ht, rfl⟩ := (h.samples r).mp hr
    exact ⟨hknown, ⟨hearly, hgap⟩, hlt.trans_le (h.ascending.le_getLast hlast ht)⟩
  · rintro ⟨hknown, ⟨-, hgap⟩, hlt⟩
    have hmem := List.mem_of_getLast? hlast
    exact ⟨hobs, a, rfl, hknown, hgap, sampleRow l, (h.samples _).mpr ⟨l, hmem, rfl⟩,
      (h.own l hmem).1, (h.own l hmem).2, hlt, hnew l hmem⟩

/-- What an interval adds stays within the listed seconds since the last report exactly when it does
not extend a known state over that report. -/
theorem bridged_within_iff {l : Snapshot} (hsound : Sound a) (hpos : 0 ≤ listedGap u l s)
    (hat : p.atMs = s.atMs) (hle : a.atMs ≤ l.atMs) (hunlisted : a.atMs < l.atMs → ¬ l.Lists u)
    (hlisted : a.atMs = l.atMs → Known a → l.Lists u) :
    (∀ c : Count, (if Bridged a p then ((p.atMs - a.atMs : ℤ) : ℚ) / 1000 * c.column (rate a c.uid)
      else 0) ≤ listedGap u l s) ↔ ¬ (Known a ∧ Bridged a p ∧ a.atMs < l.atMs) := by
  constructor
  · rintro hwithin ⟨hknown, hbridged, hlt⟩
    obtain ⟨c, hrate⟩ := hknown.exists_rate hsound
    have hgrow := hwithin c
    rw [if_pos hbridged, hrate, listedGap, if_neg (hunlisted hlt), mul_one] at hgrow
    have hspan : (0 : ℚ) < ((p.atMs - a.atMs : ℤ) : ℚ) := by
      exact_mod_cast sub_pos.mpr hbridged.1
    linarith
  · intro hno c
    split_ifs with hbridged
    · rcases c.rate_cases hsound with hrate | ⟨hknown, hrate⟩
      · rw [hrate, mul_zero]
        exact hpos
      · -- the state belongs to the last report, which lists the card
        have hsame : a.atMs = l.atMs :=
          le_antisymm hle (not_lt.mp (fun hlt => hno ⟨hknown, hbridged, hlt⟩))
        rw [hrate, mul_one, listedGap, if_pos (hlisted hsame hknown), hat, hsame]
    · exact hpos

/-- A report adds more than the listed seconds to some count exactly when it overextends a state. -/
theorem growsWithin_iff_of_recorded (h : Mirrors n u b reports st)
    (hr : Recorded now st s node full tx st') (hn : s.nodeID = n) (hb : s.bootID = b)
    (hnew : ∀ r ∈ reports, r.atMs < s.atMs) (hc : Consistent st n) (hd : Drawn Sound st)
    (hi : Integrated st n) (hi' : Integrated st' n) :
    GrowsWithin st st' n u reports (reports ++ [s]) ↔ ¬ Overextends st s u := by
  have hpos : 0 ≤ bridge (listedGap u) reports.getLast? (some s) := by
    cases hlast : reports.getLast? with
    | none => exact le_rfl
    | some l => exact listedGap_nonneg (hnew l (List.mem_of_getLast? hlast))
  unfold GrowsWithin
  rw [listedSeconds_snoc, add_sub_cancel_left]
  by_cases hobs : Observes st s u
  · obtain ⟨p, hat, hbefore, hseconds⟩ := seconds_of_recorded h hr hn hb hnew hc hi hi' hobs
    cases ha : (st.timeline n u b).getLast? with
    | none =>
      rw [ha] at hbefore hseconds
      apply iff_of_true (fun c res hres => (hseconds c res hres).trans_le hpos)
      subst hn hb
      rintro ⟨-, a, hmem, -⟩
      rw [hbefore] at hmem
      exact absurd hmem (by simp)
    | some a =>
      rw [ha] at hbefore hseconds
      simp only [Option.elim_some] at hseconds
      have hmem : a ∈ st.timeline n u b := List.mem_of_getLast? ha
      have hearly := h.lt_of_mem_timeline hnew hmem
      obtain ⟨-, r, hreport, hrat, hkind⟩ := h.points b a (mem_chronological.mp hmem)
      have hsound : Sound a := by
        obtain ⟨x, hx, -, -, -, rfl⟩ := Store.mem_lanePoints.mp (mem_chronological.mp hmem)
        exact hd.points x hx
      obtain ⟨l, hlast⟩ : ∃ l, reports.getLast? = some l :=
        ⟨_, List.getLast?_eq_some_getLast (List.ne_nil_of_mem hreport)⟩
      have hle : a.atMs ≤ l.atMs := hrat ▸ h.ascending.le_getLast hlast hreport
      rw [hlast] at hpos ⊢
      rw [overextends_iff h hn hb hnew hobs hat hbefore hlast hearly,
        ← bridged_within_iff hsound hpos hat hle ?_ ?_]
      · change (∀ (c : Count) (res : ℤ), res = 60000 ∨ res = 3600000 →
          c.seconds st' n u res - c.seconds st n u res ≤ listedGap u l s) ↔ _
        constructor
        · intro hwithin c
          exact hseconds c 60000 (.inl rfl) ▸ hwithin c 60000 (.inl rfl)
        · intro hwithin c res hres
          exact (hseconds c res hres).trans_le (hwithin c)
      · -- the last report does not list the card, as it left no point
        intro hlt hl
        obtain ⟨x, hx, hxat⟩ := h.listed l (List.mem_of_getLast? hlast) hl
        have hxle := (chronological_ascending (hi.times u b)).le_getLast ha
          (mem_chronological.mpr hx)
        omega
      · intro hsame hknown
        obtain rfl := h.ascending.inj hreport (List.mem_of_getLast? hlast) (hrat.trans hsame)
        exact hkind.resolve_right (not_not.mpr hknown)
  · refine iff_of_true (fun c res _ => ?_) (fun hover => hobs hover.1)
    rw [seconds_of_unobserved h hr hn hb hnew hi hi' hobs, sub_self]
    exact hpos

end Step

section Run

variable {calls early : List (ℤ × Snapshot)}

/-- The reports of one client start, delivered in the order of their times. -/
structure InOrder (n b : String) (calls : List (ℤ × Snapshot)) : Prop where
  own : ∀ call ∈ calls, call.2.nodeID = n ∧ call.2.bootID = b
  times : calls.Pairwise (fun c d => c.2.atMs < d.2.atMs)

theorem InOrder.of_prefix (h : InOrder n b calls) (he : early <+: calls) : InOrder n b early :=
  ⟨fun call hcall => h.own call (he.subset hcall), h.times.sublist he.sublist⟩

theorem InOrder.newer {call : ℤ × Snapshot} (h : InOrder n b (calls ++ [call])) (st : Store) :
    ∀ r ∈ accepted st calls, r.atMs < call.2.atMs := by
  intro r hr
  obtain ⟨c, hc, rfl⟩ := List.mem_map.mp ((accepted_sublist st calls).subset hr)
  exact (List.pairwise_append.mp h.times).2.2 c hc call (by simp)

theorem accepted_snoc (st : Store) (calls : List (ℤ × Snapshot)) (call : ℤ × Snapshot) :
    accepted st (calls ++ [call]) = accepted st calls ++
      if Storable call.1 (runIngest st calls) call.2 then [call.2] else [] := by
  rw [accepted_append, accepted, accepted, List.append_nil]

theorem mirrors_runIngest (nodes : Table NodeRow NodeRow.id) (h : InOrder n b calls) (u : String) :
    Mirrors n u b (accepted (freshStore nodes) calls) (runIngest (freshStore nodes) calls) ∧
      (∀ m, Consistent (runIngest (freshStore nodes) calls) m) ∧
      Drawn Sound (runIngest (freshStore nodes) calls) ∧
      Integrated (runIngest (freshStore nodes) calls) n := by
  induction calls using List.reverseRecOn with
  | nil =>
    exact ⟨mirrors_freshStore nodes n u b, consistent_freshStore nodes, drawn_freshStore _ nodes,
      integrated_freshStore nodes n⟩
  | append_singleton calls call ih =>
    obtain ⟨hm, hc, hd, hi⟩ := ih (h.of_prefix (List.prefix_append _ _))
    obtain ⟨hn, hb⟩ := h.own call (by simp)
    have hrun : runIngest (freshStore nodes) (calls ++ [call]) =
        ingested call.1 (runIngest (freshStore nodes) calls) call.2 := runIngest_append _ _ _
    rw [hrun, accepted_snoc]
    by_cases hst : Storable call.1 (runIngest (freshStore nodes) calls) call.2
    · obtain ⟨node, full, tx, hr⟩ := recorded_of_storable (hc _) hst
      rw [if_pos hst]
      have hm' := hm.recorded hr hn hb (h.newer _)
      refine ⟨hm', fun m => hr.consistent (hc m), hr.drawn hd (fun g => sound_pointOf hr.accepted),
        integrated_of_recorded hr hi hd (hc _) (fun hn' g _ => ?_)
          (fun g => sound_pointOf hr.accepted)⟩
      rw [← hn']
      exact free_of_distinct hr (hc _) hm'.distinctTimes g.uuid
    · rw [if_neg hst, ingested_of_not_storable hst, List.append_nil]
      exact ⟨hm, hc, hd, hi⟩

theorem growsWithin_iff (nodes : Table NodeRow NodeRow.id) {call : ℤ × Snapshot}
    (h : InOrder n b (early ++ [call])) (u : String) :
    GrowsWithin (runIngest (freshStore nodes) early) (runIngest (freshStore nodes) (early ++ [call]))
      n u (accepted (freshStore nodes) early) (accepted (freshStore nodes) (early ++ [call])) ↔
    (Storable call.1 (runIngest (freshStore nodes) early) call.2 →
      ¬ Overextends (runIngest (freshStore nodes) early) call.2 u) := by
  obtain ⟨hm, hc, hd, hi⟩ := mirrors_runIngest nodes (h.of_prefix (List.prefix_append _ _)) u
  obtain ⟨-, -, -, hi'⟩ := mirrors_runIngest nodes h u
  obtain ⟨hn, hb⟩ := h.own call (by simp)
  have hrun : runIngest (freshStore nodes) (early ++ [call]) =
      ingested call.1 (runIngest (freshStore nodes) early) call.2 := runIngest_append _ _ _
  rw [hrun] at hi' ⊢
  rw [accepted_snoc]
  by_cases hst : Storable call.1 (runIngest (freshStore nodes) early) call.2
  · obtain ⟨node, full, tx, hr⟩ := recorded_of_storable (hc _) hst
    rw [if_pos hst, growsWithin_iff_of_recorded hm hr hn hb (h.newer _) (hc n) hd hi hi']
    exact ⟨fun hno _ => hno, fun hno => hno hst⟩
  · rw [if_neg hst, ingested_of_not_storable hst, List.append_nil]
    refine iff_of_true (fun c res _ => ?_) (fun hyes => absurd hyes hst)
    rw [sub_self, sub_self]

theorem within_of_growsWithin (nodes : Table NodeRow NodeRow.id) (u : String)
    (hgrows : ∀ early call, early ++ [call] <+: calls →
      GrowsWithin (runIngest (freshStore nodes) early)
        (runIngest (freshStore nodes) (early ++ [call])) n u
        (accepted (freshStore nodes) early) (accepted (freshStore nodes) (early ++ [call]))) :
    Within (runIngest (freshStore nodes) calls) n u (accepted (freshStore nodes) calls) := by
  induction calls using List.reverseRecOn with
  | nil =>
    intro c res hres
    cases c <;> exact le_rfl
  | append_singleton calls call ih =>
    intro c res hres
    have hbefore := ih (fun early e he => hgrows early e (he.trans (List.prefix_append _ _))) c res hres
    have hgrowth := hgrows calls call List.prefix_rfl c res hres
    linarith

/-- Over reports of one client start in time order, what is counted of a card stays within the
seconds that begin with a report of it, exactly when no report extends a state over a sample without
the card. -/
theorem within_iff (nodes : Table NodeRow NodeRow.id) (n b : String) (calls : List (ℤ × Snapshot))
    (h : InOrder n b calls) (u : String) :
    ((∀ early, early <+: calls →
        Within (runIngest (freshStore nodes) early) n u (accepted (freshStore nodes) early)) ∧
      ∀ early call, early ++ [call] <+: calls →
        GrowsWithin (runIngest (freshStore nodes) early)
          (runIngest (freshStore nodes) (early ++ [call])) n u
          (accepted (freshStore nodes) early) (accepted (freshStore nodes) (early ++ [call]))) ↔
      Along (fun st call => ingested call.1 st call.2)
        (fun st call => Storable call.1 st call.2 → ¬ Overextends st call.2 u)
        (freshStore nodes) calls := by
  rw [along_iff]
  constructor
  · exact fun hall early call he => (growsWithin_iff nodes (h.of_prefix he) u).mp (hall.2 early call he)
  · intro hno
    have hgrows := fun early call he =>
      (growsWithin_iff nodes (h.of_prefix he) u).mpr (hno early call he)
    exact ⟨fun early he => within_of_growsWithin nodes u
      (fun part call hpart => hgrows part call (hpart.trans he)), hgrows⟩

/-- A card is listed, not found by a failed enumeration, and listed again. -/
def interruptedCalls : List (ℤ × Snapshot) :=
  [(1700000071000, sample "n" 1 1700000041000), (1700000071000, failedSample "n" 2 1700000046000),
    (1700000071000, sample "n" 3 1700000051000)]

theorem within_iff_interrupted :
    Within (runIngest (freshStore (Hub.node "n")) interruptedCalls) "n" "GPU-test"
      (accepted (freshStore (Hub.node "n")) interruptedCalls) :=
  ((within_iff (Hub.node "n") "n" "boot-one" interruptedCalls ⟨by decide, by decide⟩ "GPU-test").mpr
    (by decide +kernel)).1 interruptedCalls List.prefix_rfl

def absentCalls : List (ℤ × Snapshot) :=
  [(1700000071000, sample "n" 1 1700000041000),
    (1700000071000, { sample "n" 2 1700000046000 with gpus := [] }),
    (1700000071000, sample "n" 3 1700000051000)]

/-- The time of its absence is counted. -/
theorem absence_counted : ¬ ∀ (nodes : Table NodeRow NodeRow.id) (n b : String)
    (calls : List (ℤ × Snapshot)), InOrder n b calls →
    (∀ call ∈ calls, validate call.1 call.2 = .ok ()) → ∀ u,
      Within (runIngest (freshStore nodes) calls) n u (accepted (freshStore nodes) calls) := by
  intro h
  have hwithin := h (Hub.node "n") "n" "boot-one" absentCalls ⟨by decide, by decide⟩
    (by decide +kernel) "GPU-test" .occupancy 60000 (.inl rfl)
  exact absurd hwithin (by decide +kernel)

end Run

end CardScope.Integration
