import CardScope.Ingestion.Points

/-! # The weight of one interval

What the interval between two neighbouring points adds to the sums of a set of rollups:
its keys name the card, and its measures are those of the earlier state over the slices
of the interval.
-/

namespace CardScope.Integration
open Library Model Hub Ingestion

variable {node uuid : String} {a b : Point}

def cardContribution (node uuid : String) (a : Point) (res : ℤ) (s : Slice) : Contribution where
  key := ⟨node, uuid, "", res, s.bucket⟩
  model := a.model
  name := ""
  measures := cardMeasures a ((s.span : ℚ) / 1000)

def userContribution (node uuid : String) (a : Point) (res : ℤ) (s : Slice)
    (user : String × String) : Contribution where
  key := ⟨node, uuid, user.1, res, s.bucket⟩
  model := a.model
  name := user.2
  measures := userMeasures ((s.span : ℚ) / 1000)

theorem sliceContributions_eq (node uuid : String) (a : Point) (res : ℤ) (s : Slice) :
    sliceContributions node uuid a res s = cardContribution node uuid a res s ::
      if a.processValid then a.users.rows.map (userContribution node uuid a res s) else [] := rfl

/-- The gap between two points is short enough to be integrated. -/
def Bridged (a b : Point) : Prop := a.atMs < b.atMs ∧ b.atMs - a.atMs ≤ 2 * a.interval * 1000

instance (a b : Point) : Decidable (Bridged a b) :=
  inferInstanceAs (Decidable (a.atMs < b.atMs ∧ b.atMs - a.atMs ≤ 2 * a.interval * 1000))

theorem contributions_of_bridged (h : Bridged a b) : contributions node uuid a b =
    [60000, 3600000].flatMap (fun res =>
      (slices res a.atMs b.atMs).flatMap (sliceContributions node uuid a res)) := by
  rw [contributions, if_neg]
  unfold Bridged at h
  omega

theorem contributions_of_not_bridged (h : ¬ Bridged a b) : contributions node uuid a b = [] := by
  rw [contributions, if_pos]
  unfold Bridged at h
  omega

theorem mem_contributions {c : Contribution} (h : c ∈ contributions node uuid a b) :
    Bridged a b ∧ ∃ res, (res = 60000 ∨ res = 3600000) ∧ ∃ s ∈ slices res a.atMs b.atMs,
      c = cardContribution node uuid a res s ∨
      a.processValid ∧ ∃ user ∈ a.users.rows, c = userContribution node uuid a res s user := by
  by_cases hb : Bridged a b
  · rw [contributions_of_bridged hb] at h
    obtain ⟨res, hres, h⟩ := List.mem_flatMap.mp h
    obtain ⟨s, hs, h⟩ := List.mem_flatMap.mp h
    refine ⟨hb, res, by simpa using hres, s, hs, ?_⟩
    rw [sliceContributions_eq, List.mem_cons] at h
    rcases h with h | h
    · exact .inl h
    · split_ifs at h with hv
      · obtain ⟨user, hu, rfl⟩ := List.mem_map.mp h
        exact .inr ⟨hv, user, hu, rfl⟩
      · exact absurd h List.not_mem_nil
  · rw [contributions_of_not_bridged hb] at h
    exact absurd h List.not_mem_nil

theorem key_of_mem_contributions {c : Contribution} (h : c ∈ contributions node uuid a b) :
    c.key.node = node ∧ c.key.uuid = uuid := by
  obtain ⟨-, res, -, s, -, rfl | ⟨-, user, -, rfl⟩⟩ := mem_contributions h
  · exact ⟨rfl, rfl⟩
  · exact ⟨rfl, rfl⟩

theorem total_eq_zero {p : RollupKey → Bool} {cs : List Contribution}
    (h : ∀ c ∈ cs, p c.key = false) : total p cs = 0 := by
  induction cs with
  | nil => rfl
  | cons c cs ih =>
    rw [total_cons, ih (fun d hd => h d (List.mem_cons_of_mem _ hd)), h c (by simp)]
    simp

theorem total_contributions_of_other {p : RollupKey → Bool}
    (hp : ∀ k, p k → ¬ (k.node = node ∧ k.uuid = uuid)) :
    total p (contributions node uuid a b) = 0 :=
  total_eq_zero (fun c hc => by
    have hkey := key_of_mem_contributions hc
    by_contra hne
    exact hp c.key (by simpa using hne) hkey)

theorem total_flatMap {ι : Type*} (p : RollupKey → Bool) (l : List ι) (f : ι → List Contribution) :
    total p (l.flatMap f) = (l.map (fun i => total p (f i))).sum := by
  induction l with
  | nil => rfl
  | cons i l ih => rw [List.flatMap_cons, total_append, ih, List.map_cons, List.sum_cons]

/-- The rows of a card for one user (the whole card when empty) at one resolution, in the
buckets that satisfy `W`. -/
def rowsOf (node uuid user : String) (res : ℤ) (W : ℤ → Bool) : RollupKey → Bool := fun k =>
  k.node = node ∧ k.uuid = uuid ∧ k.user = user ∧ k.res = res ∧ W k.bucket

/-- What one second of a state adds to the row of a user, or of the whole card. -/
def rate (a : Point) (user : String) : Measures :=
  (if user = "" then cardMeasures a 1 else 0) +
    if a.processValid then
      (a.users.rows.map (fun w => if w.1 = user then userMeasures 1 else 0)).sum
    else 0

theorem cardMeasures_eq_smul (a : Point) (sec : ℚ) :
    cardMeasures a sec = sec • cardMeasures a 1 := by
  ext <;> simp only [cardMeasures, Measures.smul_attributionValid, Measures.smul_memorySum,
    Measures.smul_memoryValid, Measures.smul_occupancyValid, Measures.smul_occupied,
    Measures.smul_utilValid, Measures.smul_weighted, mul_ite, mul_one, mul_zero]
  · cases a.util <;> simp [mul_div_assoc]
  · cases a.memory <;> simp

theorem userMeasures_eq_smul (sec : ℚ) : userMeasures sec = sec • userMeasures 1 := by
  ext <;> simp [userMeasures]

theorem total_sliceContributions (node uuid user : String) (a : Point) (res r : ℤ) (W : ℤ → Bool)
    (s : Slice) : total (rowsOf node uuid user res W) (sliceContributions node uuid a r s) =
      if r = res ∧ W s.bucket then ((s.span : ℚ) / 1000) • rate a user else 0 := by
  have hcard : (if rowsOf node uuid user res W (cardContribution node uuid a r s).key then
      (cardContribution node uuid a r s).measures else 0) = if r = res ∧ W s.bucket then
        ((s.span : ℚ) / 1000) • (if user = "" then cardMeasures a 1 else 0) else 0 := by
    simp only [rowsOf, cardContribution, cardMeasures_eq_smul a (_ / 1000)]
    by_cases hu : user = ""
    · simp [hu]
    · simp [hu, Ne.symm hu]
  have husers : ∀ l : List (String × String),
      total (rowsOf node uuid user res W) (l.map (userContribution node uuid a r s)) =
        if r = res ∧ W s.bucket then ((s.span : ℚ) / 1000) •
          (l.map (fun w => if w.1 = user then userMeasures 1 else 0)).sum else 0 := by
    intro l
    induction l with
    | nil => simp
    | cons w l ih =>
      rw [List.map_cons, total_cons, ih, List.map_cons, List.sum_cons, smul_add]
      simp only [rowsOf, userContribution, userMeasures_eq_smul (_ / 1000)]
      by_cases hw : w.1 = user
      · by_cases hr : r = res ∧ W s.bucket <;> simp [hw, hr]
      · by_cases hr : r = res ∧ W s.bucket <;> simp [hw, hr]
  rw [sliceContributions_eq, total_cons, hcard, rate]
  by_cases hv : a.processValid
  · rw [if_pos hv, if_pos hv, husers]
    split_ifs <;> simp
  · rw [if_neg hv, if_neg hv, total_nil, add_zero, add_zero]

/-- An interval adds the rate of its earlier state over the time it spends in the buckets. -/
theorem total_contributions (h : Bridged a b) {res : ℤ} (hres : res = 60000 ∨ res = 3600000)
    (user : String) (W : ℤ → Bool) :
    total (rowsOf node uuid user res W) (contributions node uuid a b) =
      ((((slices res a.atMs b.atMs).map (fun s => if W s.bucket then s.span else 0)).sum : ℤ) /
        1000 : ℚ) • rate a user := by
  have hslices : ∀ r, total (rowsOf node uuid user res W)
      ((slices r a.atMs b.atMs).flatMap (sliceContributions node uuid a r)) = if r = res then
        ((((slices r a.atMs b.atMs).map (fun s => if W s.bucket then s.span else 0)).sum : ℤ) /
          1000 : ℚ) • rate a user else 0 := by
    intro r
    rw [total_flatMap]
    induction slices r a.atMs b.atMs with
    | nil => simp
    | cons s l ih =>
      rw [List.map_cons, List.sum_cons, ih, total_sliceContributions, List.map_cons, List.sum_cons]
      by_cases hr : r = res
      · by_cases hW : W s.bucket <;> simp [hr, hW, add_div, add_smul]
      · simp [hr]
  rw [contributions_of_bridged h, List.flatMap_cons, List.flatMap_cons, List.flatMap_nil,
    List.append_nil, total_append, hslices, hslices]
  rcases hres with rfl | rfl <;> simp

theorem rate_card (h : Sound a) : rate a "" = cardMeasures a 1 := by
  have husers : (a.users.rows.map (fun w => if w.1 = "" then userMeasures 1 else 0)).sum = 0 := by
    apply List.sum_eq_zero
    intro x hx
    obtain ⟨w, hw, rfl⟩ := List.mem_map.mp hx
    exact if_neg (h.named w hw)
  rw [rate, if_pos rfl, husers, ite_self, add_zero]

theorem rate_user (a : Point) {user : String} (hu : user ≠ "") :
    rate a user = if a.processValid ∧ a.users.HasKey user then userMeasures 1 else 0 := by
  have hsum : (a.users.rows.map (fun w => if w.1 = user then userMeasures 1 else 0)).sum =
      if a.users.HasKey user then userMeasures 1 else 0 := by
    have hsplit := Table.sum_eq_find?_add a.users user
      (fun w => if w.1 = user then userMeasures 1 else 0)
    have hrest : (a.users.keep (fun w => w.1 ≠ user)).sum
        (fun w => if w.1 = user then userMeasures 1 else 0) = 0 := by
      apply List.sum_eq_zero
      intro x hx
      obtain ⟨w, hw, rfl⟩ := List.mem_map.mp hx
      exact if_neg (by simpa using (List.mem_filter.mp hw).2)
    rw [hrest, add_zero] at hsplit
    rw [← Table.sum, hsplit]
    cases hf : a.users.find? user with
    | none => rw [if_neg (Table.find?_eq_none_iff.mp hf), Option.elim_none]
    | some w =>
      obtain ⟨hw, hk⟩ := Table.find?_eq_some.mp hf
      rw [Option.elim_some, if_pos hk, if_pos ⟨w, hw, hk⟩]
  rw [rate, if_neg hu, zero_add, hsum]
  by_cases hv : a.processValid <;> simp [hv]

end CardScope.Integration
