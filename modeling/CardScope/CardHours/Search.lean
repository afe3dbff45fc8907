import CardScope.CardHours.Groups
import CardScope.Hub.Api
import CardScope.Hub.Prune

/-! # Searching for users

The search drops rows of single cards before they are grouped, by the greatest name that a user
had on the card in the range. The hours of a found user are whole exactly when the search answers
alike on all cards of this user.
-/

namespace CardScope.CardHours
open Library Hub Model

def usersView (p : Platform) (now : ℤ) (st : Store) (range : Range) (node model user : String) :
    List UserStat :=
  groupUserStats (filteredStats p user (statRows now st range node model))

theorem stats_users (p : Platform) (d : Draw) (h : HubState) (r : Request)
    (hview : r.query "view" = "users") :
    Api.stats p d h r false = Api.respond 200 (.users (queryRange d.now r)
      (usersView p d.now h.db (queryRange d.now r) (r.query "node") (r.query "model") (r.query "user"))
      (incomplete (parents (statRows d.now h.db (queryRange d.now r) (r.query "node")
        (r.query "model"))))) := by
  simp [Api.stats, hview, usersView]

/-- Each entry of a search says the same of its user as the entry without a search. -/
def Whole (all found : List UserStat) : Prop :=
  ∀ u ∈ found, ∃ v ∈ all, identity v = identity u ∧ v.hours = u.hours ∧ v.cards = u.cards ∧
    v.coverage = u.coverage ∧ v.details = u.details

instance (all found : List UserStat) : Decidable (Whole all found) :=
  inferInstanceAs (Decidable (∀ u ∈ found, ∃ v ∈ all, identity v = identity u ∧
    v.hours = u.hours ∧ v.cards = u.cards ∧ v.coverage = u.coverage ∧ v.details = u.details))

section Entries

variable {rows : List StatRow} {u : UserStat} {s : StatRow}

theorem mem_groupUserStats :
    u ∈ groupUserStats rows ↔
      ∃ s rest, groupRows rows s.group = s :: rest ∧ u = entry s (s :: rest) :=
  (List.mem_insertionSort _).trans mem_entries

def groupOfEntry (u : UserStat) : String := u.node ++ "/" ++ u.uid

theorem details_eq (hu : u ∈ groupUserStats rows) : u.details = groupRows rows (groupOfEntry u) := by
  obtain ⟨s, rest, hown, rfl⟩ := mem_groupUserStats.mp hu
  exact hown.symm

theorem exists_entry_of_group (hs : s ∈ userRows rows) :
    ∃ u ∈ groupUserStats rows, groupOfEntry u = s.group := by
  have hown : s ∈ groupRows rows s.group := mem_groupRows.mpr ⟨hs, rfl⟩
  cases hrows : groupRows rows s.group with
  | nil => simp [hrows] at hown
  | cons first rest =>
    have hfirst : first.group = s.group :=
      (mem_groupRows.mp (hrows ▸ List.mem_cons_self : first ∈ groupRows rows s.group)).2
    exact ⟨entry first (first :: rest),
      mem_groupUserStats.mpr ⟨first, rest, hfirst ▸ hrows, rfl⟩, hfirst⟩

theorem groupOfEntry_eq {v : UserStat} (h : identity v = identity u) :
    groupOfEntry v = groupOfEntry u := by
  obtain ⟨hnode, huser⟩ := Prod.mk.inj h
  rw [groupOfEntry, groupOfEntry, hnode, huser]

end Entries

theorem groupRows_filter (rows : List StatRow) (m : StatRow → Bool) (k : String) :
    groupRows (rows.filter m) k = (groupRows rows k).filter m := by
  simp only [groupRows, userRows, List.filter_filter, Bool.and_comm, Bool.and_assoc]

/-- A filter of rows keeps the entries whole when it answers alike on the rows of a group. -/
theorem whole_filter_iff (rows : List StatRow) (m : StatRow → Bool) :
    Whole (groupUserStats rows) (groupUserStats (rows.filter m)) ↔
      ∀ s ∈ userRows rows, ∀ t ∈ userRows rows, s.group = t.group → (m s ↔ m t) := by
  constructor
  · intro hwhole
    -- The entry of a found row has all rows of its group, and these have been found.
    have hall : ∀ s ∈ userRows rows, ∀ t ∈ userRows rows, s.group = t.group → m s → m t := by
      intro s hs t ht hgroup hms
      obtain ⟨hs, hne⟩ := mem_userRows.mp hs
      obtain ⟨u, hu, hgu⟩ := exists_entry_of_group
        (mem_userRows.mpr ⟨List.mem_filter.mpr ⟨hs, hms⟩, hne⟩)
      obtain ⟨v, hv, hid, -, -, -, hdetails⟩ := hwhole u hu
      rw [details_eq hv, details_eq hu, groupOfEntry_eq hid, hgu, groupRows_filter] at hdetails
      have hmem : t ∈ (groupRows rows s.group).filter m :=
        hdetails ▸ mem_groupRows.mpr ⟨ht, hgroup.symm⟩
      exact (List.mem_filter.mp hmem).2
    exact fun s hs t ht hgroup => ⟨hall s hs t ht hgroup, hall t ht s hs hgroup.symm⟩
  · intro halike u hu
    obtain ⟨s, rest, hown, rfl⟩ := mem_groupUserStats.mp hu
    have hs : s ∈ groupRows (rows.filter m) s.group := hown ▸ List.mem_cons_self
    rw [groupRows_filter] at hs hown
    obtain ⟨hs, hms⟩ := List.mem_filter.mp hs
    have hsame : (groupRows rows s.group).filter m = groupRows rows s.group := by
      apply List.filter_eq_self.mpr
      intro t ht
      obtain ⟨ht, hgroup⟩ := mem_groupRows.mp ht
      exact (halike t ht s (mem_groupRows.mp hs).1 hgroup).mpr hms
    exact ⟨_, mem_groupUserStats.mpr ⟨s, rest, hsame ▸ hown, rfl⟩, rfl, rfl, rfl, rfl, rfl⟩

/-! ## The condition on the store -/

section Store

variable (p : Platform) (now : ℤ) (st : Store) (range : Range) (node model user : String)

def Selected (g : GPURow) : Prop :=
  (node = "" ∨ g.node = node) ∧ (model = "" ∨ g.name = model) ∧ g.firstSeen < range.toMs

instance (g : GPURow) : Decidable (Selected range node model g) :=
  inferInstanceAs (Decidable (_ ∧ _))

def userRollups (g : GPURow) (uid : String) : List RollupRow :=
  (joined st range g).filter (fun r => r.key.user = uid)

def greatestName (g : GPURow) (uid : String) : String :=
  ((userRollups st range g uid).map RollupRow.userName).foldl max ""

def occurs (name uid : String) : Bool :=
  user == "" || decide ((p.toLower user).toList <:+: (p.toLower (name ++ " " ++ uid)).toList)

/-- On all cards of one user the search finds the name, or on none. -/
def AnswersAlike : Prop :=
  ∀ g ∈ st.gpus, ∀ g' ∈ st.gpus, Selected range node model g → Selected range node model g' →
    ∀ uid uid', uid ≠ "" → uid' ≠ "" →
      userRollups st range g uid ≠ [] → userRollups st range g' uid' ≠ [] →
      g.node ++ "/" ++ uid = g'.node ++ "/" ++ uid' →
      (occurs p user (greatestName st range g uid) uid ↔
        occurs p user (greatestName st range g' uid') uid')

variable {p now st range node model user}

theorem mem_joinedUsers {rows : List RollupRow} {uid : String} (hne : uid ≠ "") :
    uid ∈ joinedUsers rows ↔ rows.filter (fun r => r.key.user = uid) ≠ [] := by
  unfold joinedUsers
  split_ifs with hrows
  · simp [hrows, hne]
  · simp [List.mem_insertionSort, List.filter_eq_nil_iff]

theorem mem_userRows_statRows {s : StatRow} :
    s ∈ userRows (statRows now st range node model) ↔
      ∃ g ∈ st.gpus, Selected range node model g ∧ ∃ uid, uid ≠ "" ∧
        userRollups st range g uid ≠ [] ∧ s = statRow now range g uid (userRollups st range g uid) := by
  simp only [mem_userRows, statRows, List.mem_flatMap, List.mem_insertionSort, List.mem_filter,
    decide_eq_true_eq, gpuStats, List.mem_map]
  constructor
  · rintro ⟨⟨g, ⟨hg, hselected⟩, uid, huid, rfl⟩, hne⟩
    exact ⟨g, hg, hselected, uid, hne, (mem_joinedUsers hne).mp huid, rfl⟩
  · rintro ⟨g, hg, hselected, uid, hne, hrows, rfl⟩
    exact ⟨⟨g, ⟨hg, hselected⟩, uid, (mem_joinedUsers hne).mpr hrows, rfl⟩, hne⟩

@[simp] theorem attributed_group (parent : Parents) (s : StatRow) :
    (s.attributed parent).group = s.group := by
  unfold StatRow.attributed
  split_ifs <;> rfl

@[simp] theorem attributed_userID (parent : Parents) (s : StatRow) :
    (s.attributed parent).userID = s.userID := by
  unfold StatRow.attributed
  split_ifs <;> rfl

theorem userRows_attributed (parent : Parents) (rows : List StatRow) :
    userRows (rows.map (StatRow.attributed parent)) =
      (userRows rows).map (StatRow.attributed parent) := by
  simp only [userRows, List.filter_map, Function.comp_def, attributed_userID]

@[simp] theorem matches_attributed (parent : Parents) (s : StatRow) :
    (s.attributed parent).matches p user = s.matches p user := by
  unfold StatRow.attributed
  split_ifs <;> rfl

theorem group_statRow (g : GPURow) (uid : String) (rows : List RollupRow) :
    (statRow now range g uid rows).group = g.node ++ "/" ++ uid := rfl

theorem matches_statRow (g : GPURow) (uid : String) :
    (statRow now range g uid (userRollups st range g uid)).matches p user =
      occurs p user (greatestName st range g uid) uid := rfl

theorem filteredStats_empty (rows : List StatRow) :
    filteredStats p "" rows = rows.map (StatRow.attributed (parents rows)) :=
  List.filter_eq_self.mpr (fun _ _ => rfl)

end Store

/-- The entries that a search finds say the same of their users as the entries without a search
exactly when the search answers alike on all cards of a user. -/
theorem usersView_whole_iff (p : Platform) (now : ℤ) (st : Store) (range : Range)
    (node model user : String) :
    Whole (usersView p now st range node model "") (usersView p now st range node model user) ↔
      AnswersAlike p st range node model user := by
  rw [usersView, usersView, filteredStats_empty, filteredStats, whole_filter_iff,
    userRows_attributed]
  simp only [List.forall_mem_map, attributed_group, matches_attributed]
  constructor
  · intro h g hg g' hg' hsel hsel' uid uid' hne hne' hrolls hrolls' hgroup
    have hmatch := h _ (mem_userRows_statRows.mpr ⟨g, hg, hsel, uid, hne, hrolls, rfl⟩) _
      (mem_userRows_statRows.mpr ⟨g', hg', hsel', uid', hne', hrolls', rfl⟩)
    rw [group_statRow, group_statRow, matches_statRow, matches_statRow] at hmatch
    exact hmatch hgroup
  · intro h s hs t ht hgroup
    obtain ⟨g, hg, hsel, uid, hne, hrolls, rfl⟩ := mem_userRows_statRows.mp hs
    obtain ⟨g', hg', hsel', uid', hne', hrolls', rfl⟩ := mem_userRows_statRows.mp ht
    rw [group_statRow, group_statRow] at hgroup
    rw [matches_statRow, matches_statRow]
    exact h g hg g' hg' hsel hsel' uid uid' hne hne' hrolls hrolls' hgroup

/-! ## A renamed user -/

def usedBy (uuid name : String) : GPU :=
  { testCard with uuid := uuid, processes := [{ pid := 12, uid := "1000", user := name }] }

/-- User 1000 works on the first card as alice and, after a change of the login name, on the second
card as bob. -/
def renamedUser : Store :=
  runIngest (freshStore (Hub.node "n"))
    [(1700000050000, { sample "n" 1 1700000041000 with gpus := [usedBy "GPU-a" "alice"] }),
     (1700000050000, { sample "n" 2 1700000046000 with gpus := [usedBy "GPU-a" "alice"] }),
     (1700000060000, { sample "n" 3 1700000051000 with gpus := [usedBy "GPU-b" "bob"] }),
     (1700000060000, { sample "n" 4 1700000056000 with gpus := [usedBy "GPU-b" "bob"] })]

/-- The search for alice reports the hours of one of the two cards. -/
theorem search_splits_user : ¬ ∀ (p : Platform) (now : ℤ) (st : Store) (range : Range)
    (node model user : String), Whole (usersView p now st range node model "")
      (usersView p now st range node model user) := by
  intro h
  have hwhole := h ascii 1700000100000 renamedUser ⟨1700000040000, 1700000100000, 60000⟩ "" ""
    "alice"
  exact absurd hwhole (by decide +kernel)

end CardScope.CardHours
