import CardScope.Integration.Bounds
import CardScope.Library.Pairs

/-! # Process lists and points

Two reports that differ in their process lists only give points that differ in their users only.
How the lists are related decides how the users are.
-/

namespace CardScope.Attribution
open Library Model Hub Ingestion Integration

variable {L : List Process → List Process → Prop} {l l' : List Process} {g g' : GPU}
  {s s' : Snapshot} {p p' : Point} {u : String}

/-- Two reports of a card with the same readings and related process lists. -/
structure SameCard (L : List Process → List Process → Prop) (g g' : GPU) : Prop where
  rest : g' = { g with processes := g'.processes }
  lists : L g.processes g'.processes

/-- Two reports that differ in the process lists of their cards only. -/
structure SameReport (L : List Process → List Process → Prop) (s s' : Snapshot) : Prop where
  rest : s' = { s with gpus := s'.gpus }
  cards : List.Forall₂ (SameCard L) s.gpus s'.gpus

def BothOrNone (l l' : List Process) : Prop := l = [] ↔ l' = []

def Blanked (l l' : List Process) : Prop :=
  List.Forall₂ (fun pr pr' => pr' = pr ∨ pr' = { pr with uid := "" }) l l'

/-- Processes are added whose UIDs the list has already. -/
def Extended (l l' : List Process) : Prop :=
  l.Sublist l' ∧ ∀ pr' ∈ l', ∃ pr ∈ l, pr.uid = pr'.uid

theorem Blanked.bothOrNone (h : Blanked l l') : BothOrNone l l' := by
  cases h with
  | nil => exact Iff.rfl
  | cons _ _ => exact iff_of_false (List.cons_ne_nil _ _) (List.cons_ne_nil _ _)

theorem Extended.bothOrNone (h : Extended l l') : BothOrNone l l' := by
  constructor
  · rintro rfl
    apply List.eq_nil_iff_forall_not_mem.mpr
    intro pr hpr
    obtain ⟨q, hq, -⟩ := h.2 pr hpr
    exact absurd hq List.not_mem_nil
  · rintro rfl
    exact List.sublist_nil.mp h.1

theorem SameCard.imp {M : List Process → List Process → Prop} (h : SameCard L g g')
    (hLM : ∀ l l', L l l' → M l l') : SameCard M g g' := ⟨h.rest, hLM _ _ h.lists⟩

theorem SameReport.imp {M : List Process → List Process → Prop} (h : SameReport L s s')
    (hLM : ∀ l l', L l l' → M l l') : SameReport M s s' :=
  ⟨h.rest, h.cards.imp (fun _ _ hg => hg.imp hLM)⟩

theorem SameReport.lists_iff (h : SameReport L s s') (u : String) : s'.Lists u ↔ s.Lists u := by
  have hcards := h.cards
  unfold Snapshot.Lists
  generalize s.gpus = cards at hcards
  generalize s'.gpus = cards' at hcards
  induction hcards with
  | nil => exact Iff.rfl
  | @cons g g' cards cards' hg _ ih =>
    have huuid : g'.uuid = g.uuid := by rw [hg.rest]
    rw [List.exists_mem_cons_iff, List.exists_mem_cons_iff, huuid]
    exact or_congr_right ih

section Users

theorem hasKey_usersOf : (usersOf l).HasKey u ↔ u ≠ "" ∧ ∃ pr ∈ l, pr.uid = u := by
  induction l using List.reverseRecOn with
  | nil => exact iff_of_false (by rintro ⟨w, ⟨⟩, -⟩) (by simp)
  | append_singleton l pr ih =>
    have hsplit : usersOf (l ++ [pr]) =
        if pr.uid != "" then (usersOf l).set pr.uid pr.user else usersOf l := by
      simp only [usersOf, List.foldl_append, List.foldl_cons, List.foldl_nil]
    have hmem : (∃ q ∈ l ++ [pr], q.uid = u) ↔ (∃ q ∈ l, q.uid = u) ∨ pr.uid = u := by
      simp only [List.mem_append, List.mem_singleton, or_and_right, exists_or, exists_eq_left]
    rw [hsplit, hmem]
    by_cases hu : pr.uid = ""
    · rw [if_neg (by simp [hu]), ih]
      refine and_congr_right (fun hne => (or_iff_left ?_).symm)
      exact fun he => hne (he.symm.trans hu)
    · rw [if_pos (by simpa using hu), ← not_iff_not, ← Table.find?_eq_none_iff, StringMap.set,
        Table.find?_put]
      by_cases he : pr.uid = u
      · rw [if_pos he]
        exact iff_of_false (by simp) (not_not.mpr ⟨he ▸ hu, .inr he⟩)
      · rw [if_neg he, Table.find?_eq_none_iff, ih, or_iff_left he]

theorem Blanked.exists_uid (h : Blanked l l') (hu : u ≠ "") (he : ∃ pr' ∈ l', pr'.uid = u) :
    ∃ pr ∈ l, pr.uid = u := by
  induction h with
  | nil => exact he
  | @cons pr pr' l l' hpr _ ih =>
    rw [List.exists_mem_cons_iff] at he ⊢
    rcases he with rfl | he
    · rcases hpr with rfl | rfl
      · exact .inl rfl
      · exact absurd rfl hu
    · exact .inr (ih he)

/-- Blanking a UID never makes a list complete. -/
theorem Blanked.all_named (h : Blanked l l') (hall : ∀ pr' ∈ l', pr'.uid ≠ "") :
    ∀ pr ∈ l, pr.uid ≠ "" := by
  induction h with
  | nil => exact hall
  | @cons pr pr' l l' hpr _ ih =>
    rw [List.forall_mem_cons] at hall ⊢
    refine ⟨?_, ih hall.2⟩
    rcases hpr with rfl | rfl
    · exact hall.1
    · exact absurd rfl hall.1

theorem Extended.exists_uid_iff (h : Extended l l') :
    (∃ pr' ∈ l', pr'.uid = u) ↔ ∃ pr ∈ l, pr.uid = u := by
  constructor
  · rintro ⟨pr', hpr', rfl⟩
    exact h.2 pr' hpr'
  · rintro ⟨pr, hpr, hu⟩
    exact ⟨pr, h.1.subset hpr, hu⟩

end Users

/-- Two sound points that differ in their users only. -/
structure SamePoint (p p' : Point) : Prop where
  rest : p' = { p with userValid := p'.userValid, users := p'.users }
  sound : Sound p
  sound' : Sound p'

structure FewerUsers (p p' : Point) : Prop extends SamePoint p p' where
  userValid : p'.userValid → p.userValid
  users : ∀ u, p'.users.HasKey u → p.users.HasKey u

structure SameUsers (p p' : Point) : Prop extends SamePoint p p' where
  userValid : p'.userValid = p.userValid
  users : ∀ u, p'.users.HasKey u ↔ p.users.HasKey u

/-- The points of one card in two accepted reports. -/
def Twins (L : List Process → List Process → Prop) (p p' : Point) : Prop :=
  ∃ now now' s s' g g', Accepted now s ∧ Accepted now' s' ∧ Observable s g ∧ Observable s' g' ∧
    s' = { s with gpus := s'.gpus } ∧ SameCard L g g' ∧ p = pointOf s g ∧ p' = pointOf s' g'

section Twins

theorem Twins.samePoint (h : Twins L p p') (hL : ∀ l l', L l l' → BothOrNone l l') :
    SamePoint p p' := by
  obtain ⟨now, now', s, s', g, g', ha, ha', ho, ho', hs, hg, rfl, rfl⟩ := h
  refine ⟨?_, sound_pointOf ha ho, sound_pointOf ha' ho'⟩
  have hempty : g'.processes.isEmpty = g.processes.isEmpty := by
    rw [Bool.eq_iff_iff, List.isEmpty_iff, List.isEmpty_iff]
    exact (hL _ _ hg.lists).symm
  rw [hs, hg.rest]
  simp only [pointOf, hempty]

theorem userValid_pointOf (s : Snapshot) (g : GPU) : (pointOf s g).userValid = true ↔
    (g.status = "ok" ∧ g.processStatus = "ok") ∧ ∀ pr ∈ g.processes, pr.uid ≠ "" := by
  simp [pointOf]

theorem Twins.fewerUsers (h : Twins Blanked p p') : FewerUsers p p' := by
  refine ⟨h.samePoint (fun _ _ => Blanked.bothOrNone), ?_, ?_⟩
  · obtain ⟨now, now', s, s', g, g', -, -, -, -, -, hg, rfl, rfl⟩ := h
    rw [userValid_pointOf, userValid_pointOf, hg.rest]
    exact fun hv => ⟨hv.1, hg.lists.all_named hv.2⟩
  · obtain ⟨now, now', s, s', g, g', -, -, -, -, -, hg, rfl, rfl⟩ := h
    intro u hu
    obtain ⟨hne, he⟩ := hasKey_usersOf.mp hu
    exact hasKey_usersOf.mpr ⟨hne, hg.lists.exists_uid hne he⟩

theorem Twins.sameUsers (h : Twins Extended p p') : SameUsers p p' := by
  refine ⟨h.samePoint (fun _ _ => Extended.bothOrNone), ?_, ?_⟩
  · obtain ⟨now, now', s, s', g, g', -, -, -, -, -, hg, rfl, rfl⟩ := h
    have hnamed : (∀ pr ∈ g'.processes, pr.uid ≠ "") ↔ ∀ pr ∈ g.processes, pr.uid ≠ "" := by
      have hblank := not_congr (hg.lists.exists_uid_iff (u := ""))
      push Not at hblank
      exact hblank
    rw [Bool.eq_iff_iff, userValid_pointOf, userValid_pointOf, hnamed, hg.rest]
  · obtain ⟨now, now', s, s', g, g', -, -, -, -, -, hg, rfl, rfl⟩ := h
    intro u
    exact hasKey_usersOf.trans (Iff.trans (and_congr_right (fun _ => hg.lists.exists_uid_iff))
      hasKey_usersOf.symm)

theorem Twins.atMs_eq (h : Twins L p p') : p'.atMs = p.atMs := by
  obtain ⟨now, now', s, s', g, g', -, -, -, -, hs, -, rfl, rfl⟩ := h
  rw [hs]
  rfl

theorem Twins.interval_eq (h : Twins L p p') : p'.interval = p.interval := by
  obtain ⟨now, now', s, s', g, g', -, -, -, -, hs, -, rfl, rfl⟩ := h
  rw [hs]
  rfl

theorem Twins.seq_eq (h : Twins L p p') : p'.seq = p.seq := by
  obtain ⟨now, now', s, s', g, g', -, -, -, -, hs, -, rfl, rfl⟩ := h
  rw [hs]
  rfl

end Twins

end CardScope.Attribution
