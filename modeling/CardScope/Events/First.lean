import CardScope.Events.Started

/-! # The time of a begin

The begin of a client start of a card carries the time of its earliest point. A report before all
points of the card finds no earlier neighbour and moves the begin back; a report after one of them
leaves it alone. Nothing is asked of the order of arrival, nor of equal times.
-/

namespace CardScope.Events
open Library Model Hub Ingestion Integration

variable {n u b : String} {now : ℤ} {st tx tx' st' : Store} {s full : Snapshot} {node : NodeRow}
  {g : GPU}

def times (st : Store) (n u b : String) : Set ℤ := {t | ∃ p ∈ st.lanePoints n u b, p.atMs = t}

/-- A card with points has its begin recorded, and every begin carries the time of the earliest
point. -/
def StartsFirst (st : Store) : Prop := ∀ n u b,
  (st.lanePoints n u b ≠ [] → startsOf st n u b ≠ []) ∧
    ∀ e ∈ startsOf st n u b, IsLeast (times st n u b) e.atMs

theorem times_observe (h : observe s tx g = .ok tx') (n u b : String) :
    times tx' n u b = if s.nodeID = n ∧ g.uuid = u ∧ s.bootID = b
      then insert s.atMs (times tx n u b) else times tx n u b := by
  unfold times
  rw [observe_lanePoints h]
  split_ifs with hown
  · ext t
    simp only [Set.mem_ofPred_eq, Set.mem_insert_iff, List.exists_mem_cons_iff]
    exact or_congr_left eq_comm
  · rfl

theorem StartsFirst.observe (h : StartsFirst tx) (ho : observe s tx g = .ok tx') :
    StartsFirst tx' := by
  intro n u b
  obtain ⟨hsome, hleast⟩ := h n u b
  rw [observe_lanePoints ho, startsOf_observe_eq ho, times_observe ho]
  by_cases hown : s.nodeID = n ∧ g.uuid = u ∧ s.bootID = b
  · rw [if_pos hown, if_pos hown]
    by_cases hbefore : tx.pointBefore n u b s.atMs = none
    · have hlate : s.atMs ∈ lowerBounds (times tx n u b) := by
        rintro t ⟨p, hp, rfl⟩
        exact pointBefore_eq_none.mp hbefore p hp
      rw [if_pos ⟨hown, hbefore⟩]
      by_cases hafter : tx.pointAfter n u b s.atMs = none
      · -- All points have the time of the report.
        rw [if_pos hafter]
        have hnew : IsLeast (insert s.atMs (times tx n u b)) s.atMs :=
          ⟨Set.mem_insert _ _, by simpa [lowerBounds_insert] using hlate⟩
        refine ⟨fun _ => List.cons_ne_nil _ _, fun e he => ?_⟩
        rcases List.mem_cons.mp he with rfl | he
        · exact hnew
        · obtain ⟨p, hp, hat⟩ := (hleast e he).1
          rw [← hat, alone_iff.mp ⟨hbefore, hafter⟩ p hp]
          exact hnew
      · rw [if_neg hafter]
        refine ⟨fun _ hnil => hafter ?_, fun e he => ?_⟩
        · have hpoints : tx.lanePoints n u b = [] := by
            by_contra hne
            exact hsome hne (List.map_eq_nil_iff.mp hnil)
          rw [pointAfter_eq_none, hpoints]
          simp
        · obtain ⟨first, hfirst, rfl⟩ := List.mem_map.mp he
          rw [movedBack, min_comm]
          exact (hleast first hfirst).insert s.atMs
    · -- A point lies before the report.
      rw [if_neg (fun hc => hbefore hc.2)]
      have hpoint : ∃ p ∈ tx.lanePoints n u b, p.atMs < s.atMs := by
        simpa [pointBefore_eq_none] using hbefore
      obtain ⟨p, hp, hlt⟩ := hpoint
      refine ⟨fun _ => hsome (List.ne_nil_of_mem hp), fun e he => ?_⟩
      have hle : e.atMs ≤ s.atMs := ((hleast e he).2 ⟨p, hp, rfl⟩).trans hlt.le
      have hmin := (hleast e he).insert s.atMs
      rwa [min_eq_right hle] at hmin
  · rw [if_neg hown, if_neg (fun hc => hown hc.1), if_neg hown]
    exact ⟨hsome, hleast⟩

theorem StartsFirst.recorded (h : StartsFirst st) (hr : Recorded now st s node full tx st') :
    StartsFirst st' := by
  have htx : StartsFirst tx := foldlM_invariant (Hub.observe full) (fun _ t => StartsFirst t)
    (fun _ _ _ _ ht hstep => ht.observe hstep) (show StartsFirst (withSample st s hr.fresh) from h)
    hr.observed
  intro n u b
  have hpoints : st'.lanePoints n u b = tx.lanePoints n u b := by
    unfold Store.lanePoints
    rw [hr.measurements.1]
  have hstarts : startsOf st' n u b = startsOf tx n u b := by
    unfold startsOf
    rw [hr.eventsOf_of_kind (by simp)]
  have htimes : times st' n u b = times tx n u b := by
    unfold times
    rw [hpoints]
  rw [hpoints, hstarts, htimes]
  exact htx n u b

theorem StartsFirst.ingested (h : StartsFirst st) (now : ℤ) (s : Snapshot) :
    StartsFirst (ingested now st s) := by
  rcases ingested_cases now st s with he | ⟨node, full, tx, hr⟩
  · rw [he]
    exact h
  · exact h.recorded hr

theorem startsFirst_freshStore (nodes : Table NodeRow NodeRow.id) :
    StartsFirst (freshStore nodes) :=
  fun _ _ _ => ⟨fun hne => absurd rfl hne, fun _ he => absurd he List.not_mem_nil⟩

theorem startsFirst_runIngest (nodes : Table NodeRow NodeRow.id) (calls : List (ℤ × Snapshot)) :
    StartsFirst (runIngest (freshStore nodes) calls) :=
  foldl_invariant (fun st (call : ℤ × Snapshot) => Hub.ingested call.1 st call.2)
    (fun _ st => StartsFirst st) (fun call _ _ h => h.ingested call.1 call.2) calls _
    (startsFirst_freshStore nodes)

theorem times_ingested (st : Store) (now : ℤ) (s : Snapshot) (n u b : String) :
    times (Hub.ingested now st s) n u b = times st n u b ∨
      times (Hub.ingested now st s) n u b = insert s.atMs (times st n u b) := by
  rcases ingested_cases now st s with he | ⟨node, full, tx, hr⟩
  · rw [he]
    exact .inl rfl
  · by_cases hcard : s.nodeID = n ∧ s.bootID = b ∧ ∃ g ∈ full.gpus, g.uuid = u
    · obtain ⟨hn, hb, g, hg, hu⟩ := hcard
      refine .inr (Set.ext fun t => ?_)
      simp only [times, Set.mem_ofPred_eq, Set.mem_insert_iff]
      constructor
      · rintro ⟨p, hp, rfl⟩
        rcases (hr.mem_lanePoints n u b p).mp hp with ⟨-, -, g', -, -, rfl⟩ | hp
        · exact .inl rfl
        · exact .inr ⟨p, hp, rfl⟩
      · rintro (rfl | ⟨p, hp, rfl⟩)
        · exact ⟨pointOf s g, (hr.mem_lanePoints n u b _).mpr (.inl ⟨hn, hb, g, hg, hu, rfl⟩), rfl⟩
        · exact ⟨p, (hr.mem_lanePoints n u b p).mpr (.inr hp), rfl⟩
    · refine .inl (Set.ext fun t => ?_)
      simp only [times, Set.mem_ofPred_eq, hr.mem_lanePoints]
      refine exists_congr (fun p => and_congr_left (fun _ => or_iff_right ?_))
      rintro ⟨hn, hb, g, hg, hu, -⟩
      exact hcard ⟨hn, hb, g, hg, hu⟩

/-- After any uploads a card with points has its begin recorded at the time of its earliest point.
The next upload moves a begin back to its own time, or not at all. -/
theorem starts_at_first_point (nodes : Table NodeRow NodeRow.id) (calls : List (ℤ × Snapshot))
    (n u b : String) :
    let st := runIngest (freshStore nodes) calls
    (st.lanePoints n u b ≠ [] → startsOf st n u b ≠ []) ∧
    (∀ e ∈ startsOf st n u b, IsLeast {t | ∃ p ∈ st.lanePoints n u b, p.atMs = t} e.atMs) ∧
    ∀ call : ℤ × Snapshot, ∀ e ∈ startsOf st n u b,
      ∀ e' ∈ startsOf (Hub.ingested call.1 st call.2) n u b,
        e'.atMs = e.atMs ∨ e'.atMs = call.2.atMs ∧ call.2.atMs < e.atMs := by
  intro st
  have hfirst : StartsFirst st := startsFirst_runIngest nodes calls
  refine ⟨(hfirst n u b).1, (hfirst n u b).2, fun call e he e' he' => ?_⟩
  have hold := (hfirst n u b).2 e he
  have hnew := (hfirst.ingested call.1 call.2 n u b).2 e' he'
  rcases times_ingested st call.1 call.2 n u b with htimes | htimes
  · rw [htimes] at hnew
    exact .inl (hnew.unique hold)
  · rw [htimes] at hnew
    have hmin : e'.atMs = min call.2.atMs e.atMs := hnew.unique (hold.insert _)
    rcases le_or_gt e.atMs call.2.atMs with hle | hlt
    · exact .inl (hmin.trans (min_eq_right hle))
    · exact .inr ⟨hmin.trans (min_eq_left hlt.le), hlt⟩

end CardScope.Events
