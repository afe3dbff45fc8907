import CardScope.Attribution.Lists

/-! # Aspects of the rollups

Two runs may agree on a part of the rollups only: on the rows of some keys, and there on a linear
function of the measures. Contributions that agree on this part keep it the same.
-/

namespace CardScope.Attribution
open Library Model Hub Ingestion Integration

variable {L : List Process → List Process → Prop} {p p' q q' : Point} {k : RollupKey}

/-- The part of the rollups that is compared. -/
structure Aspect where
  keys : RollupKey → Prop
  name : String → String
  measures : Measures →ₗ[ℚ] Measures

section Accumulate

variable {rollups rollups' : Table RollupRow RollupRow.key} {cs cs' ds ds' : List Contribution}
  {sign : ℚ}

def accumulate (sign : ℚ) (row : Option RollupRow) (c : Contribution) : Option RollupRow :=
  some (row.elim ⟨c.key, c.model, c.name, sign • c.measures⟩
    (fun r => { r with measures := r.measures + sign • c.measures, userName := c.name }))

theorem find?_upsertRollup (rollups : Table RollupRow RollupRow.key) (c : Contribution) (sign : ℚ)
    (k : RollupKey) : (upsertRollup rollups c sign).find? k =
      if c.key = k then accumulate sign (rollups.find? k) c else rollups.find? k :=
  Table.find?_upsert rollups _ _ _ k

theorem find?_applyContributions (rollups : Table RollupRow RollupRow.key)
    (cs : List Contribution) (sign : ℚ) (k : RollupKey) :
    (applyContributions rollups cs sign).find? k =
      (cs.filter (fun c => c.key = k)).foldl (accumulate sign) (rollups.find? k) := by
  induction cs generalizing rollups with
  | nil => rfl
  | cons c cs ih =>
    change (applyContributions (upsertRollup rollups c sign) cs sign).find? k = _
    rw [ih, find?_upsertRollup]
    by_cases hk : c.key = k
    · rw [if_pos hk, List.filter_cons, if_pos (decide_eq_true hk), List.foldl_cons]
    · rw [if_neg hk, List.filter_cons_of_neg (by simpa using hk)]

namespace Aspect

variable {v : Aspect}

def row (v : Aspect) (r : RollupRow) : RollupRow :=
  { r with userName := v.name r.userName, measures := v.measures r.measures }

def contribution (v : Aspect) (c : Contribution) : Contribution :=
  { c with name := v.name c.name, measures := v.measures c.measures }

def SameRows (v : Aspect) (rollups rollups' : Table RollupRow RollupRow.key) : Prop :=
  ∀ k, v.keys k → (rollups.find? k).map v.row = (rollups'.find? k).map v.row

def SameContributions (v : Aspect) (cs cs' : List Contribution) : Prop :=
  ∀ k, v.keys k → (cs.filter (fun c => c.key = k)).map v.contribution =
    (cs'.filter (fun c => c.key = k)).map v.contribution

theorem accumulate_row (v : Aspect) (sign : ℚ) (row : Option RollupRow) (c : Contribution) :
    (accumulate sign row c).map v.row = accumulate sign (row.map v.row) (v.contribution c) := by
  cases row with
  | none => simp [accumulate, Aspect.row, contribution]
  | some r => simp [accumulate, Aspect.row, contribution]

theorem SameRows.apply (h : v.SameRows rollups rollups') (hc : v.SameContributions cs cs')
    (sign : ℚ) : v.SameRows (applyContributions rollups cs sign)
      (applyContributions rollups' cs' sign) := by
  have hfold : ∀ (row : Option RollupRow) (l : List Contribution),
      (l.foldl (accumulate sign) row).map v.row =
        (l.map v.contribution).foldl (accumulate sign) (row.map v.row) := by
    intro row l
    induction l generalizing row with
    | nil => rfl
    | cons c l ih => rw [List.foldl_cons, ih, accumulate_row, List.map_cons, List.foldl_cons]
  intro k hk
  rw [find?_applyContributions, find?_applyContributions, hfold, hfold, h k hk, hc k hk]

theorem SameContributions.append (h : v.SameContributions cs cs')
    (h' : v.SameContributions ds ds') : v.SameContributions (cs ++ ds) (cs' ++ ds') := by
  intro k hk
  rw [List.filter_append, List.filter_append, List.map_append, List.map_append, h k hk, h' k hk]

theorem SameContributions.flatMap {ι : Type*} {f f' : ι → List Contribution} (l : List ι)
    (h : ∀ i, v.SameContributions (f i) (f' i)) :
    v.SameContributions (l.flatMap f) (l.flatMap f') := by
  induction l with
  | nil => exact fun k _ => rfl
  | cons i l ih =>
    rw [List.flatMap_cons, List.flatMap_cons]
    exact (h i).append ih

theorem sameContributions_of_slices (hp : p'.atMs = p.atMs ∧ p'.interval = p.interval)
    (hq : q'.atMs = q.atMs) {n u : String}
    (h : ∀ res s, v.SameContributions (sliceContributions n u p res s)
      (sliceContributions n u p' res s)) :
    v.SameContributions (contributions n u p q) (contributions n u p' q') := by
  unfold contributions
  rw [hp.1, hp.2, hq]
  split_ifs
  · exact fun k _ => rfl
  · exact SameContributions.flatMap _ (fun res => SameContributions.flatMap _ (h res))

end Aspect

end Accumulate

/-- The whole-card rows but for their attributed time. -/
def unattributed : Aspect where
  keys k := k.user = ""
  name := id
  measures := ⟨⟨fun m => { m with attributionValid := 0 }, fun a b => by ext <;> simp⟩,
    fun c a => by ext <;> simp⟩

def numeric : Aspect where
  keys _ := True
  name _ := ""
  measures := LinearMap.id

section Slices

variable {n u : String} {res : ℤ} {s : Slice}

theorem filter_sliceContributions (hp : Sound p) (k : RollupKey) :
    (sliceContributions n u p res s).filter (fun c => c.key = k) =
      if ⟨n, u, k.user, res, s.bucket⟩ = k then
        if k.user = "" then [cardContribution n u p res s]
        else if p.processValid then
          (p.users.find? k.user).toList.map (userContribution n u p res s)
        else []
      else [] := by
  have husers : ((p.users.rows.map (userContribution n u p res s)).filter (fun c => c.key = k)) =
      (p.users.rows.filter (fun w => (⟨n, u, w.1, res, s.bucket⟩ : RollupKey) = k)).map
        (userContribution n u p res s) := by
    rw [List.filter_map]
    rfl
  rw [sliceContributions_eq, List.filter_cons]
  by_cases hk : (⟨n, u, k.user, res, s.bucket⟩ : RollupKey) = k
  · have hkey : ∀ x, (⟨n, u, x, res, s.bucket⟩ : RollupKey) = k ↔ x = k.user := by
      intro x
      rw [← hk]
      simp
    have hcard : (cardContribution n u p res s).key = k ↔ k.user = "" := (hkey "").trans eq_comm
    rw [if_pos hk]
    simp only [hcard, decide_eq_true_eq]
    by_cases hu : k.user = ""
    · have hnone : (p.users.rows.map (userContribution n u p res s)).filter (fun c => c.key = k) =
          [] := by
        apply List.filter_eq_nil_iff.mpr
        intro c hc he
        obtain ⟨w, hw, rfl⟩ := List.mem_map.mp hc
        exact hp.named w hw (((hkey w.1).mp (of_decide_eq_true he)).trans hu)
      rw [if_pos hu, if_pos hu]
      split_ifs
      · rw [hnone]
      · rfl
    · rw [if_neg hu, if_neg hu]
      split_ifs
      · rw [husers]
        simp only [hkey]
        rw [Table.filter_key]
      · rfl
  · have hkey : ∀ x, (⟨n, u, x, res, s.bucket⟩ : RollupKey) ≠ k := by
      rintro x rfl
      exact hk rfl
    have hcard : ¬ decide ((cardContribution n u p res s).key = k) = true := fun he =>
      hkey "" (of_decide_eq_true he)
    rw [if_neg hk, if_neg hcard]
    split_ifs
    · rw [husers]
      simp only [hkey, decide_false, List.filter_false, List.map_nil]
    · rfl

/-- The whole-card contributions agree but for their attributed time. -/
theorem sameContributions_unattributed (h : SamePoint p p') (n u : String) (res : ℤ) (s : Slice) :
    unattributed.SameContributions (sliceContributions n u p res s)
      (sliceContributions n u p' res s) := by
  intro k hk
  change k.user = "" at hk
  rw [filter_sliceContributions h.sound, filter_sliceContributions h.sound', if_pos hk, if_pos hk]
  have hcard : unattributed.contribution (cardContribution n u p res s) =
      unattributed.contribution (cardContribution n u p' res s) := by
    rw [h.rest]
    rfl
  split_ifs
  · rw [List.map_singleton, List.map_singleton, hcard]
  · rfl

/-- Points that know the same users contribute the same numbers. -/
theorem sameContributions_numeric (h : SameUsers p p') (n u : String) (res : ℤ) (s : Slice) :
    numeric.SameContributions (sliceContributions n u p res s)
      (sliceContributions n u p' res s) := by
  intro k _
  rw [filter_sliceContributions h.sound, filter_sliceContributions h.sound']
  have hvalid : p'.processValid = p.processValid := by rw [h.rest]
  have hcard : cardContribution n u p' res s = cardContribution n u p res s := by
    have hmeasures : cardMeasures p' ((s.span : ℚ) / 1000) = cardMeasures p ((s.span : ℚ) / 1000) := by
      rw [h.rest, h.userValid]
      rfl
    unfold cardContribution
    rw [hmeasures, h.rest]
  have husers : ((p.users.find? k.user).toList.map (userContribution n u p res s)).map
        numeric.contribution =
      ((p'.users.find? k.user).toList.map (userContribution n u p' res s)).map
        numeric.contribution := by
    have hmodel : p'.model = p.model := by rw [h.rest]
    have hkeys := not_congr (h.users k.user)
    rw [← Table.find?_eq_none_iff, ← Table.find?_eq_none_iff] at hkeys
    cases hf : p.users.find? k.user with
    | none =>
      rw [hkeys.mpr hf]
      rfl
    | some w =>
      cases hf' : p'.users.find? k.user with
      | none => rw [hkeys.mp hf'] at hf; cases hf
      | some w' =>
        have hw : w.1 = w'.1 :=
          (Table.find?_eq_some.mp hf).2.trans (Table.find?_eq_some.mp hf').2.symm
        simp [userContribution, Aspect.contribution, numeric, hmodel, hw]
  rw [hcard, hvalid]
  split_ifs
  · rfl
  · exact husers
  · rfl
  · rfl

end Slices

end CardScope.Attribution
