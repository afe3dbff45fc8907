import CardScope.Hub.Statistics
import CardScope.Hub.Validation
import CardScope.Library.Groups

/-! # Groups of users

The groups of the user view partition the rows that have a user. The map hands the groups over in
any order and the sort is not stable; neither can be seen in the result, since no two groups
compare equal.
-/

namespace CardScope.Hub
open Library

/-- The comparison of the sort. -/
def UserStat.less (u v : UserStat) : Prop :=
  if u.hours ≠ v.hours then u.hours > v.hours else u.node ++ u.uid < v.node ++ v.uid

instance : DecidableRel UserStat.less := fun u v => inferInstanceAs (Decidable
  (if u.hours ≠ v.hours then u.hours > v.hours else u.node ++ u.uid < v.node ++ v.uid))

/-- What the sort may return when the map yields its groups in some order. -/
structure SortedGroups (rows : List StatRow) (out : List UserStat) : Prop where
  perm : out.Perm ((userGroups rows).rows.map (fun g => g.stat.covered))
  sorted : out.Pairwise (fun u v => ¬ v.less u)

end CardScope.Hub

namespace CardScope.CardHours
open Library Table Hub

/-- The identity of a user: equal names on two nodes are two users. -/
def identity (u : UserStat) : String × String := (u.node, u.uid)

def userRows (rows : List StatRow) : List StatRow := rows.filter (fun s => s.userID ≠ "")

def groupRows (rows : List StatRow) (k : String) : List StatRow :=
  (userRows rows).filter (fun s => s.group = k)

@[simp] theorem mem_userRows {rows : List StatRow} {s : StatRow} :
    s ∈ userRows rows ↔ s ∈ rows ∧ s.userID ≠ "" := by
  simp [userRows]

@[simp] theorem mem_groupRows {rows : List StatRow} {k : String} {s : StatRow} :
    s ∈ groupRows rows k ↔ s ∈ userRows rows ∧ s.group = k := by
  simp [groupRows]

/-- The entry that the rows of one group make; the first one names it. -/
def entry (s : StatRow) (own : List StatRow) : UserStat where
  node := s.node
  uid := s.userID
  user := s.user
  hours := (own.map StatRow.occupied).sum
  cards := own.countP (fun s => s.occupied > 0)
  coverage := ratio (own.map StatRow.occupancyValid).sum (own.map StatRow.expected).sum
  details := own

theorem ratio_mem_unit (valid expected : ℚ) : 0 ≤ ratio valid expected ∧ ratio valid expected ≤ 1 := by
  unfold ratio
  split_ifs
  · exact ⟨le_min zero_le_one (le_max_left _ _), min_le_left _ _⟩
  · exact ⟨le_rfl, zero_le_one⟩

theorem userGroups_eq (rows : List StatRow) :
    userGroups rows = grouped StatRow.opened UserGroup.add (fun _ _ => rfl) (userRows rows) := by
  unfold grouped userRows
  rw [List.foldl_filter]
  simp only [userGroups, decide_not, Bool.not_eq_eq_eq_not, Bool.not_true, decide_eq_false_iff_not,
    ite_not]

theorem foldl_add (own : List StatRow) (g : UserGroup) :
    own.foldl (fun g s => UserGroup.add s g) g =
      { g with stat := { g.stat with
          hours := g.stat.hours + (own.map StatRow.occupied).sum
          cards := g.stat.cards + own.countP (fun s => s.occupied > 0)
          details := g.stat.details ++ own } } := by
  induction own generalizing g with
  | nil => simp
  | cons s own ih =>
    rw [List.foldl_cons, ih]
    by_cases hs : s.occupied > 0 <;>
      simp [UserGroup.add, hs, add_assoc, add_comm]

theorem groupOf_eq (s : StatRow) (rest : List StatRow) :
    groupOf StatRow.opened UserGroup.add (s :: rest) =
      some ⟨s.group, { entry s (s :: rest) with coverage := 0 }⟩ := by
  rw [groupOf, foldl_add]
  simp [StatRow.opened, entry]

theorem mem_entries {rows : List StatRow} {u : UserStat} :
    u ∈ (userGroups rows).rows.map (fun g => g.stat.covered) ↔
      ∃ s rest, groupRows rows s.group = s :: rest ∧ u = entry s (s :: rest) := by
  rw [userGroups_eq, List.mem_map]
  constructor
  · rintro ⟨g, hg, rfl⟩
    have hof := mem_grouped.mp hg
    cases hown : (userRows rows).filter (fun s => s.opened.key = g.key) with
    | nil =>
      rw [hown] at hof
      cases hof
    | cons s rest =>
      rw [hown, groupOf_eq, Option.some_inj] at hof
      subst hof
      exact ⟨s, rest, hown, rfl⟩
  · rintro ⟨s, rest, hown, rfl⟩
    refine ⟨⟨s.group, { entry s (s :: rest) with coverage := 0 }⟩, ?_, rfl⟩
    exact mem_grouped.mpr ((congrArg _ hown).trans (groupOf_eq s rest))

theorem not_less_iff {u v : UserStat} : ¬ v.less u ↔ u.le v := by
  unfold UserStat.less UserStat.le
  by_cases h : u.hours = v.hours
  · rw [if_neg (not_not.mpr h.symm), if_neg (not_not.mpr h), not_lt]
  · rw [if_pos (Ne.symm h), if_pos h, gt_iff_lt, not_lt]
    exact ⟨fun hle => lt_of_le_of_ne hle (Ne.symm h), le_of_lt⟩

instance : Std.Total UserStat.le := ⟨fun u v => by
  unfold UserStat.le
  by_cases h : u.hours = v.hours
  · rw [if_neg (not_not.mpr h), if_neg (not_not.mpr h.symm)]
    exact le_total _ _
  · rw [if_pos h, if_pos (Ne.symm h)]
    exact lt_or_gt_of_ne (Ne.symm h)⟩

instance : IsTrans UserStat UserStat.le := ⟨fun u v w => by
  unfold UserStat.le
  intro huv hvw
  by_cases h : u.hours = v.hours
  · by_cases h' : v.hours = w.hours
    · simp only [h, h', ne_eq, not_true_eq_false, if_false] at huv hvw ⊢
      exact huv.trans hvw
    · simpa [h, h'] using hvw
  · rw [if_pos h] at huv
    by_cases h' : v.hours = w.hours
    · rwa [if_pos (h' ▸ h), ← h']
    · rw [if_pos h'] at hvw
      rw [if_pos (hvw.trans huv).ne']
      exact hvw.trans huv⟩

/-- The list that the model returns is one that the sort may return. -/
theorem sortedGroups_groupUserStats (rows : List StatRow) :
    SortedGroups rows (groupUserStats rows) where
  perm := List.perm_insertionSort _ _
  sorted := (List.pairwise_insertionSort _ _).imp (fun h => not_less_iff.mpr h)

/-! ## Identities -/

theorem append_inj_of_len {a b x y : String} (h : len a = len b) (he : a ++ x = b ++ y) :
    a = b ∧ x = y := by
  have hbytes : a.toByteArray.data.toList ++ x.toByteArray.data.toList =
      b.toByteArray.data.toList ++ y.toByteArray.data.toList := by
    simpa using congrArg (fun s => s.toByteArray.data.toList) he
  obtain ⟨hab, hxy⟩ := List.append_inj hbytes (by simpa using h)
  exact ⟨String.toByteArray_inj.mp (ByteArray.ext (Array.toList_inj.mp hab)),
    String.toByteArray_inj.mp (ByteArray.ext (Array.toList_inj.mp hxy))⟩

def EqualLength (rows : List StatRow) : Prop := ∀ s ∈ rows, ∀ t ∈ rows, len s.node = len t.node

instance (rows : List StatRow) : Decidable (EqualLength rows) :=
  inferInstanceAs (Decidable (∀ s ∈ rows, ∀ t ∈ rows, len s.node = len t.node))

theorem group_eq_iff {s t : StatRow} (h : len s.node = len t.node) :
    s.group = t.group ↔ s.node = t.node ∧ s.userID = t.userID := by
  constructor
  · intro he
    rw [StatRow.group, StatRow.group, String.append_assoc, String.append_assoc] at he
    obtain ⟨hnode, hrest⟩ := append_inj_of_len h he
    exact ⟨hnode, (append_inj_of_len rfl hrest).2⟩
  · rintro ⟨hnode, huser⟩
    rw [StatRow.group, StatRow.group, hnode, huser]

def rowsOf (rows : List StatRow) (node uid : String) : List StatRow :=
  rows.filter (fun s => s.node = node ∧ s.userID = uid)

theorem groupRows_eq_rowsOf {rows : List StatRow} (heq : EqualLength rows) {s : StatRow}
    (hs : s ∈ rows) (hne : s.userID ≠ "") :
    groupRows rows s.group = rowsOf rows s.node s.userID := by
  rw [groupRows, userRows, List.filter_filter, rowsOf]
  apply List.filter_congr
  intro t ht
  rw [Bool.eq_iff_iff, Bool.and_eq_true, decide_eq_true_eq, decide_eq_true_eq, decide_eq_true_eq,
    group_eq_iff (heq t ht s hs)]
  constructor
  · exact And.left
  · rintro ⟨hnode, huser⟩
    exact ⟨⟨hnode, huser⟩, huser ▸ hne⟩

section Outcome

variable {rows : List StatRow} {out : List UserStat}

theorem eq_entry (heq : EqualLength rows) (h : SortedGroups rows out) {u : UserStat}
    (hu : u ∈ out) :
    ∃ s rest, s ∈ rows ∧ s.userID ≠ "" ∧ rowsOf rows s.node s.userID = s :: rest ∧
      u = entry s (s :: rest) := by
  obtain ⟨s, rest, hown, rfl⟩ := mem_entries.mp (h.perm.mem_iff.mp hu)
  have hs : s ∈ groupRows rows s.group := hown ▸ List.mem_cons_self
  obtain ⟨hmem, hne⟩ := mem_userRows.mp (mem_groupRows.mp hs).1
  exact ⟨s, rest, hmem, hne, groupRows_eq_rowsOf heq hmem hne ▸ hown, rfl⟩

theorem exists_entry (heq : EqualLength rows) (h : SortedGroups rows out) {s : StatRow}
    (hs : s ∈ rows) (hne : s.userID ≠ "") :
    ∃ u ∈ out, u.node = s.node ∧ u.uid = s.userID := by
  have hown : s ∈ rowsOf rows s.node s.userID := List.mem_filter.mpr ⟨hs, by simp⟩
  cases hfirst : rowsOf rows s.node s.userID with
  | nil => simp [hfirst] at hown
  | cons t rest =>
    have ht : t ∈ rowsOf rows s.node s.userID := hfirst ▸ List.mem_cons_self
    obtain ⟨htr, hid⟩ := List.mem_filter.mp ht
    obtain ⟨hnode, huser⟩ := of_decide_eq_true hid
    refine ⟨entry t (t :: rest), h.perm.mem_iff.mpr (mem_entries.mpr ⟨t, rest, ?_, rfl⟩), hnode, huser⟩
    rw [groupRows_eq_rowsOf heq htr (huser ▸ hne), hnode, huser, hfirst]

theorem key_eq {g : UserGroup} (hg : g ∈ userGroups rows) :
    g.key = g.stat.node ++ "/" ++ g.stat.uid := by
  rw [userGroups_eq] at hg
  have hof := mem_grouped.mp hg
  cases hown : (userRows rows).filter (fun s => s.opened.key = g.key) with
  | nil =>
    rw [hown] at hof
    cases hof
  | cons s rest =>
    rw [hown, groupOf_eq, Option.some_inj] at hof
    subst hof
    rfl

theorem identities_nodup (h : SortedGroups rows out) : (out.map identity).Nodup := by
  rw [(h.perm.map identity).nodup_iff, List.map_map]
  apply List.Nodup.of_map (fun id => id.1 ++ "/" ++ id.2)
  rw [List.map_map]
  have hkeys : (userGroups rows).rows.map
      ((fun id : String × String => id.1 ++ "/" ++ id.2) ∘ identity ∘ fun g => g.stat.covered) =
        (userGroups rows).rows.map UserGroup.key :=
    List.map_congr_left (fun g hg => (key_eq hg).symm)
  rw [hkeys]
  exact (userGroups rows).nodup

theorem mem_identities (heq : EqualLength rows) (h : SortedGroups rows out) (node uid : String) :
    (node, uid) ∈ out.map identity ↔ uid ≠ "" ∧ ∃ s ∈ rows, s.node = node ∧ s.userID = uid := by
  constructor
  · intro hid
    obtain ⟨u, hu, he⟩ := List.mem_map.mp hid
    obtain ⟨s, rest, hs, hne, -, rfl⟩ := eq_entry heq h hu
    obtain ⟨rfl, rfl⟩ := Prod.mk.inj he
    exact ⟨hne, s, hs, rfl, rfl⟩
  · rintro ⟨hne, s, hs, rfl, rfl⟩
    obtain ⟨u, hu, hnode, huser⟩ := exists_entry heq h hs hne
    exact List.mem_map.mpr ⟨u, hu, Prod.ext hnode huser⟩

/-- Two entries that compare equal would have one identity. -/
theorem strictly_sorted (heq : EqualLength rows) (h : SortedGroups rows out) :
    out.Pairwise (fun u v =>
      u.hours > v.hours ∨ u.hours = v.hours ∧ u.node ++ u.uid < v.node ++ v.uid) := by
  have hdistinct : out.Pairwise (fun u v => identity u ≠ identity v) :=
    List.pairwise_map.mp (identities_nodup h)
  refine (h.sorted.and hdistinct).imp_of_mem (fun {u v} hu hv huv => ?_)
  obtain ⟨hle, hne⟩ := huv
  have hlen : len u.node = len v.node := by
    obtain ⟨s, -, hs, -, -, rfl⟩ := eq_entry heq h hu
    obtain ⟨t, -, ht, -, -, rfl⟩ := eq_entry heq h hv
    exact heq s hs t ht
  rw [not_less_iff, UserStat.le] at hle
  by_cases hhours : u.hours = v.hours
  · rw [if_neg (not_not.mpr hhours)] at hle
    refine .inr ⟨hhours, lt_of_le_of_ne hle (fun he => hne ?_)⟩
    obtain ⟨hnode, huser⟩ := append_inj_of_len hlen he
    exact Prod.ext hnode huser
  · rw [if_pos hhours] at hle
    exact .inl hle

theorem sum_hours (h : SortedGroups rows out) :
    (out.map UserStat.hours).sum = ((userRows rows).map StatRow.occupied).sum := by
  rw [(h.perm.map UserStat.hours).sum_eq, List.map_map, userGroups_eq]
  exact sum_grouped (fun g : UserGroup => g.stat.hours) StatRow.occupied
    (fun s => by simp [UserGroup.add, StatRow.opened]) (fun s g => rfl) _

/-- Neither the order of the map nor the sort can be seen. -/
theorem eq_groupUserStats (heq : EqualLength rows) (h : SortedGroups rows out) :
    out = groupUserStats rows := by
  have hmodel := sortedGroups_groupUserStats rows
  refine List.Perm.eq_of_pairwise ?_ (strictly_sorted heq h) (strictly_sorted heq hmodel)
    (h.perm.trans hmodel.perm.symm)
  intro u v _ _ huv hvu
  rcases huv with huv | ⟨he, huv⟩ <;> rcases hvu with hvu | ⟨he', hvu⟩
  · exact absurd huv (lt_asymm hvu)
  · exact absurd he' (ne_of_lt huv)
  · exact absurd he (ne_of_lt hvu)
  · exact absurd huv (lt_asymm hvu)

end Outcome

/-- The groups of the rows, whatever the order of the map: one entry for each user of a node, made
of exactly its rows, in one order. -/
theorem groupUserStats_complete (rows : List StatRow) (heq : EqualLength rows)
    (out : List UserStat) (h : SortedGroups rows out) :
    (out.map identity).Nodup ∧
    (∀ node uid, (node, uid) ∈ out.map identity ↔
      uid ≠ "" ∧ ∃ s ∈ rows, s.node = node ∧ s.userID = uid) ∧
    (∀ u ∈ out, u.hours = ((rowsOf rows u.node u.uid).map StatRow.occupied).sum ∧
      u.cards = (rowsOf rows u.node u.uid).countP (fun s => s.occupied > 0) ∧
      u.details = rowsOf rows u.node u.uid ∧ 0 ≤ u.coverage ∧ u.coverage ≤ 1) ∧
    out.Pairwise (fun u v =>
      u.hours > v.hours ∨ u.hours = v.hours ∧ u.node ++ u.uid < v.node ++ v.uid) ∧
    (out.map UserStat.hours).sum = ((userRows rows).map StatRow.occupied).sum ∧
    out = groupUserStats rows := by
  refine ⟨identities_nodup h, mem_identities heq h, fun u hu => ?_, strictly_sorted heq h,
    sum_hours h, eq_groupUserStats heq h⟩
  obtain ⟨s, rest, -, -, hown, rfl⟩ := eq_entry heq h hu
  have hrows : rowsOf rows (entry s (s :: rest)).node (entry s (s :: rest)).uid = s :: rest := hown
  rw [hrows]
  exact ⟨rfl, rfl, rfl, ratio_mem_unit _ _⟩

/-- Two cards of one user, and a user of the same name on another node. -/
def sharedRows : List StatRow :=
  [{ node := "n1", uuid := "a", userID := "1", user := "alice", occupied := 2,
     occupancyValid := 1800, expected := 3600 },
   { node := "n1", uuid := "b", userID := "1", user := "alice", occupied := 3,
     occupancyValid := 3600, expected := 3600 },
   { node := "n2", uuid := "c", userID := "1", user := "alice", occupied := 5,
     occupancyValid := 3600, expected := 3600 },
   { node := "n1", uuid := "a", occupied := 50 }]

theorem groupUserStats_complete_shared :
    ((groupUserStats sharedRows).map identity).Nodup ∧
      (groupUserStats sharedRows).map UserStat.hours = [5, 5] := by
  refine ⟨(groupUserStats_complete sharedRows (by decide +kernel) _
    (sortedGroups_groupUserStats sharedRows)).1, by decide +kernel⟩

end CardScope.CardHours
