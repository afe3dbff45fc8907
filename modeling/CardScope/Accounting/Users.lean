import CardScope.Accounting.Stats

/-! # Hours of users

The user view adds up the rows of a user over the cards of a node. Its hours are the milliseconds
in which the states in force list the user, summed over the cards, and its cards are those on which
there was such a millisecond.
-/

namespace CardScope.Accounting
open Library Model Hub Ingestion Integration CardHours

section Groups

variable {st : Store} {range : Range} {now : ℤ} {node model : String}

theorem sum_flatMap_rows {ι κ M : Type*} [AddCommMonoid M] (l : List ι) (f : ι → List κ)
    (φ : κ → M) : ((l.flatMap f).map φ).sum = (l.map (fun i => ((f i).map φ).sum)).sum := by
  induction l with
  | nil => rfl
  | cons i l ih => rw [List.flatMap_cons, List.map_append, List.sum_append, ih]; rfl

theorem countP_eq_sum {ι : Type*} (l : List ι) (p : ι → Bool) :
    l.countP p = (l.map (fun i => if p i then 1 else 0)).sum := by
  induction l with
  | nil => rfl
  | cons i l ih => cases h : p i <;> simp [h, ih, add_comm]

theorem joinedUsers_nodup (rows : List RollupRow) : (joinedUsers rows).Nodup := by
  unfold joinedUsers
  split_ifs
  · exact List.nodup_singleton ""
  · exact (List.perm_insertionSort _ _).nodup_iff.mpr (List.nodup_dedup _)

/-- The rows of a user on one card: one, when there are rollups of this user. -/
theorem filter_gpuStats (g : GPURow) {uid : String} (huid : uid ≠ "") :
    (gpuStats now st range g).filter (fun s => s.userID = uid) =
      if userRollups st range g uid = [] then []
      else [statRow now range g uid (userRollups st range g uid)] := by
  have hfilter : (joinedUsers (joined st range g)).filter (fun v => v = uid) =
      if userRollups st range g uid = [] then [] else [uid] := by
    rw [List.filter_eq]
    split_ifs with hnone
    · rw [List.count_eq_zero.mpr]
      · rfl
      · exact fun hmem => (mem_joinedUsers huid).mp hmem hnone
    · rw [List.count_eq_one_of_mem (joinedUsers_nodup _) ((mem_joinedUsers huid).mpr hnone)]
      rfl
  have hid : (fun s : StatRow => decide (s.userID = uid)) ∘
      (fun v => statRow now range g v (userRollups st range g v)) = fun v => decide (v = uid) := rfl
  change ((joinedUsers (joined st range g)).map
    (fun v => statRow now range g v (userRollups st range g v))).filter _ = _
  rw [List.filter_map, hid, hfilter]
  split_ifs <;> rfl

theorem sum_rowsOf {M : Type*} [AddCommMonoid M] (now : ℤ) (node model uid n : String)
    (huid : uid ≠ "")
    (φ : StatRow → M) (ψ : GPURow → M)
    (hsome : ∀ g, userRollups st range g uid ≠ [] →
      φ (statRow now range g uid (userRollups st range g uid)) = ψ g)
    (hnone : ∀ g, userRollups st range g uid = [] → ψ g = 0) :
    ((CardHours.rowsOf (statRows now st range node model) n uid).map φ).sum =
      ((st.gpus.rows.filter (fun g => Selected range node model g ∧ g.node = n)).map ψ).sum := by
  have hcard : ∀ g, (((gpuStats now st range g).filter (fun s => s.node = n ∧ s.userID = uid)).map
      φ).sum = if g.node = n then ψ g else 0 := by
    intro g
    have hnode : ∀ s ∈ gpuStats now st range g, s.node = g.node := by
      intro s hs
      obtain ⟨v, -, rfl⟩ := List.mem_map.mp hs
      rfl
    by_cases hn : g.node = n
    · have hsame : (gpuStats now st range g).filter (fun s => s.node = n ∧ s.userID = uid) =
          (gpuStats now st range g).filter (fun s => s.userID = uid) := by
        apply List.filter_congr
        intro s hs
        simp [hnode s hs, hn]
      rw [hsame, filter_gpuStats g huid, if_pos hn]
      split_ifs with h
      · simp [hnone g h]
      · simp [hsome g h]
    · have hempty : (gpuStats now st range g).filter (fun s => s.node = n ∧ s.userID = uid) = [] := by
        apply List.filter_eq_nil_iff.mpr
        intro s hs
        simp [hnode s hs, hn]
      rw [hempty, if_neg hn]
      rfl
  have hselected : (st.gpus.rows.filter (fun g => Selected range node model g ∧ g.node = n)).map ψ =
      ((st.gpus.rows.filter (fun g => Selected range node model g)).filter
        (fun g => g.node = n)).map ψ := by
    rw [List.filter_filter]
    congr 2
    funext g
    simp [and_comm]
  rw [hselected, ← sum_ite_filter, CardHours.rowsOf, statRows, List.filter_flatMap,
    sum_flatMap_rows]
  simp only [hcard, decide_eq_true_eq]
  exact ((List.perm_insertionSort GPURow.le _).map _).sum_eq

theorem rowsOf_attributed (parent : Parents) (rows : List StatRow) (n uid : String) :
    CardHours.rowsOf (rows.map (StatRow.attributed parent)) n uid =
      (CardHours.rowsOf rows n uid).map (StatRow.attributed parent) := by
  have hkeep : (fun s : StatRow => decide (s.node = n ∧ s.userID = uid)) ∘
      StatRow.attributed parent = fun s => decide (s.node = n ∧ s.userID = uid) := by
    funext s
    simp only [Function.comp_apply, StatRow.attributed]
    split_ifs <;> rfl
  rw [CardHours.rowsOf, List.filter_map, hkeep]
  rfl

theorem attributed_occupied (parent : Parents) (s : StatRow) :
    (s.attributed parent).occupied = s.occupied := by
  unfold StatRow.attributed
  split_ifs <;> rfl

theorem attributed_node (parent : Parents) (s : StatRow) :
    (s.attributed parent).node = s.node := by
  unfold StatRow.attributed
  split_ifs <;> rfl

end Groups

/-- The cards of a node that a query reads. -/
def cardsOf (st : Store) (range : Range) (node model n : String) : List GPURow :=
  st.gpus.rows.filter (fun g => Selected range node model g ∧ g.node = n)

/-- The milliseconds in which the states in force list the user on the card. -/
noncomputable def userMs (st : Store) (range : Range) (uid : String) (g : GPURow) : ℕ :=
  st.msWhere g.node g.uuid range.fromMs range.toMs (listed uid)

/-- The card time of a user of a node, over all cards that a query reads. -/
noncomputable def cardMs (st : Store) (range : Range) (node model n uid : String) : ℕ :=
  ((cardsOf st range node model n).map (userMs st range uid)).sum

/-- An entry of the user view states the time of its user on the cards of its node. -/
structure States (st : Store) (range : Range) (node model : String) (u : UserStat) : Prop where
  hours : u.hours = (cardMs st range node model u.node u.uid : ℚ) / 3600000
  cards : u.cards =
    (cardsOf st range node model u.node).countP (fun g => 0 < userMs st range u.uid g)

section View

variable {st : Store} {range : Range} {now : ℤ} {node model : String} {p : Platform}

theorem equalLength_statRows (now : ℤ) (range : Range) (node model : String)
    (h : ∀ g ∈ st.gpus, ∀ g' ∈ st.gpus, len g.node = len g'.node) :
    EqualLength ((statRows now st range node model).map
      (StatRow.attributed (parents (statRows now st range node model)))) := by
  have hcard : ∀ s ∈ statRows now st range node model, ∃ g ∈ st.gpus, s.node = g.node := by
    intro s hs
    simp only [statRows, List.mem_flatMap, gpuStats, List.mem_map, List.mem_insertionSort,
      List.mem_filter] at hs
    obtain ⟨g, ⟨hg, -⟩, uid, -, rfl⟩ := hs
    exact ⟨g, hg, rfl⟩
  intro s' hs' t' ht'
  obtain ⟨s, hs, rfl⟩ := List.mem_map.mp hs'
  obtain ⟨t, ht, rfl⟩ := List.mem_map.mp ht'
  obtain ⟨g, hg, hsg⟩ := hcard s hs
  obtain ⟨g', hg', htg⟩ := hcard t ht
  rw [attributed_node, attributed_node, hsg, htg]
  exact h g hg g' hg'

theorem occupied_attributed (hsums : ∀ n u, SumsUp st n u range.res range.fromMs range.toMs)
    {uid : String} (huid : uid ≠ "") (parent : Parents) (g : GPURow) :
    ((statRow now range g uid (userRollups st range g uid)).attributed parent).occupied =
      (userMs st range uid g : ℚ) * (3600000 : ℚ)⁻¹ := by
  obtain ⟨hoccupied, -⟩ :
      (statRow now range g uid (userRollups st range g uid)).occupied = _ ∧ _ :=
    statRow_fields now range g uid rfl rfl
  have hsum := (hsums g.node g.uuid).listed huid
  rw [attributed_occupied, hoccupied, hsum, hours_eq, ← div_eq_mul_inv]
  rfl

theorem states_usersView (hsums : ∀ n u, SumsUp st n u range.res range.fromMs range.toMs)
    (hlen : ∀ g ∈ st.gpus, ∀ g' ∈ st.gpus, len g.node = len g'.node) {u : UserStat}
    (hu : u ∈ usersView p now st range node model "") : States st range node model u := by
  have heq := equalLength_statRows now range node model hlen
  rw [usersView, filteredStats_empty] at hu
  obtain ⟨s, rest, hs, huid, hrows, rfl⟩ := eq_entry heq (sortedGroups_groupUserStats _) hu
  rw [rowsOf_attributed] at hrows
  have hoccupied : ∀ g,
      ((statRow now range g s.userID (userRollups st range g s.userID)).attributed
        (parents (statRows now st range node model))).occupied =
          (userMs st range s.userID g : ℚ) * (3600000 : ℚ)⁻¹ :=
    fun g => occupied_attributed hsums huid _ g
  have hpositive : ∀ g, 0 < (userMs st range s.userID g : ℚ) * (3600000 : ℚ)⁻¹ ↔
      0 < userMs st range s.userID g := by
    intro g
    rw [mul_pos_iff_of_pos_right (by norm_num), Nat.cast_pos]
  have hzero : ∀ g, userRollups st range g s.userID = [] → userMs st range s.userID g = 0 :=
    fun g hnone => msWhere_eq_zero (hsums g.node g.uuid) huid hnone
  constructor
  · have hsum := sum_rowsOf now node model s.userID s.node huid
      (StatRow.occupied ∘ StatRow.attributed (parents (statRows now st range node model)))
      (fun g => (userMs st range s.userID g : ℚ) * (3600000 : ℚ)⁻¹)
      (fun g _ => hoccupied g)
      (fun g hnone => by simp [hzero g hnone])
    rw [List.sum_map_mul_right] at hsum
    change ((s :: rest).map StatRow.occupied).sum =
      (cardMs st range node model s.node s.userID : ℚ) / _
    rw [← hrows, List.map_map, hsum, cardMs, Nat.cast_list_sum, List.map_map, div_eq_mul_inv]
    rfl
  · have hcounted : ∀ g, (if 0 < ((statRow now range g s.userID
          (userRollups st range g s.userID)).attributed
            (parents (statRows now st range node model))).occupied then 1 else 0) =
        if 0 < userMs st range s.userID g then 1 else 0 := by
      intro g
      simp only [hoccupied g, hpositive g]
    have hsum := sum_rowsOf now node model s.userID s.node huid
      (fun t => if 0 < (t.attributed (parents (statRows now st range node model))).occupied
        then 1 else 0)
      (fun g => if 0 < userMs st range s.userID g then 1 else 0)
      (fun g _ => hcounted g)
      (fun g hnone => by simp [hzero g hnone])
    change (s :: rest).countP (fun t => decide (t.occupied > 0)) =
      (cardsOf st range node model s.node).countP _
    rw [← hrows, List.countP_map, countP_eq_sum, countP_eq_sum]
    simp only [Function.comp_apply, gt_iff_lt, decide_eq_true_eq]
    exact hsum

theorem exists_usersView (hsums : ∀ n u, SumsUp st n u range.res range.fromMs range.toMs)
    (hlen : ∀ g ∈ st.gpus, ∀ g' ∈ st.gpus, len g.node = len g'.node) {n uid : String}
    (huid : uid ≠ "") (hpos : 0 < cardMs st range node model n uid) :
    ∃ u ∈ usersView p now st range node model "", u.node = n ∧ u.uid = uid := by
  have hcard : ∃ g ∈ cardsOf st range node model n, 0 < userMs st range uid g := by
    by_contra hnone
    apply hpos.ne'
    apply List.sum_eq_zero
    intro x hx
    obtain ⟨g, hg, rfl⟩ := List.mem_map.mp hx
    exact Nat.eq_zero_of_not_pos (fun h => hnone ⟨g, hg, h⟩)
  obtain ⟨g, hg, hms⟩ := hcard
  obtain ⟨hg, hselected, hn⟩ : g ∈ st.gpus ∧ Selected range node model g ∧ g.node = n := by
    simpa [cardsOf, Table.mem_def] using hg
  have hsome : userRollups st range g uid ≠ [] := fun hnone =>
    hms.ne' (msWhere_eq_zero (hsums g.node g.uuid) huid hnone)
  have hrow : statRow now range g uid (userRollups st range g uid) ∈
      statRows now st range node model :=
    (mem_userRows.mp (mem_userRows_statRows.mpr ⟨g, hg, hselected, uid, huid, hsome, rfl⟩)).1
  have heq := equalLength_statRows now range node model hlen
  obtain ⟨u, hu, hnode, hid⟩ := exists_entry heq (sortedGroups_groupUserStats _)
    (List.mem_map_of_mem hrow) (by rw [attributed_userID]; exact huid)
  rw [attributed_node] at hnode
  rw [attributed_userID] at hid
  refine ⟨u, ?_, hnode.trans hn, hid⟩
  rw [usersView, filteredStats_empty]
  exact hu

end View

/-- The hours and cards of every entry of the user view are those of the states in force, and every
user with time on a card has an entry. -/
theorem userHours_eq_instants (nodes : Table NodeRow NodeRow.id) (calls : List (ℤ × Snapshot))
    (hdistinct : DistinctTimes (runIngest (freshStore nodes) calls)) (p : Platform) (now : ℤ)
    (r : Request) (hdate : Dated calls (queryRange now r).res (queryRange now r).fromMs)
    (hlen : ∀ g ∈ (runIngest (freshStore nodes) calls).gpus,
      ∀ g' ∈ (runIngest (freshStore nodes) calls).gpus, len g.node = len g'.node)
    (node model : String) :
    (∀ u ∈ usersView p now (runIngest (freshStore nodes) calls) (queryRange now r) node model "",
      States (runIngest (freshStore nodes) calls) (queryRange now r) node model u) ∧
    ∀ n uid, uid ≠ "" →
      0 < cardMs (runIngest (freshStore nodes) calls) (queryRange now r) node model n uid →
      ∃ u ∈ usersView p now (runIngest (freshStore nodes) calls) (queryRange now r) node model "",
        u.node = n ∧ u.uid = uid := by
  obtain ⟨hres, hlo, hhi⟩ := queryRange_aligned now r
  have hsums : ∀ n u, SumsUp (runIngest (freshStore nodes) calls) n u (queryRange now r).res
      (queryRange now r).fromMs (queryRange now r).toMs :=
    fun n u uid => rollupSum_rowsWithin nodes hdistinct hres hlo hhi hdate uid
  constructor
  · intro u hu
    exact states_usersView hsums hlen hu
  · intro n uid huid hpos
    exact exists_usersView hsums hlen huid hpos

theorem userHours_eq_instants_late :
    DistinctTimes (runIngest (freshStore (Hub.node "n")) lateCalls) ∧
    ∀ u ∈ usersView ascii 1700000071000 (runIngest (freshStore (Hub.node "n")) lateCalls)
      (queryRange 1700000071000 dayRequest) "" "" "",
      States (runIngest (freshStore (Hub.node "n")) lateCalls) (queryRange 1700000071000 dayRequest)
        "" "" u :=
  have hdistinct : DistinctTimes (runIngest (freshStore (Hub.node "n")) lateCalls) := by
    decide +kernel
  ⟨hdistinct, (userHours_eq_instants (Hub.node "n") lateCalls hdistinct ascii 1700000071000
    dayRequest (.inl (by decide +kernel)) (by decide +kernel) "" "").1⟩

end CardScope.Accounting
