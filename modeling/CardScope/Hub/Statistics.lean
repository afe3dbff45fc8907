import CardScope.Hub.Queries

/-! # Card hours

The statistics of a range by card and by user, and their exports. The coverage of a user is the
time in which all users of the card were known, not the time in which this one was seen.
-/

namespace CardScope.Hub
open Library Model

structure StatRow where
  node : String := ""
  uuid : String := ""
  model : String := ""
  userID : String := ""
  user : String := ""
  occupied : ℚ := 0
  weighted : ℚ := 0
  occupancyValid : ℚ := 0
  utilValid : ℚ := 0
  expected : ℚ := 0
  coverage : ℚ := 0
  utilCoverage : ℚ := 0
  attributionValid : ℚ := 0
deriving DecidableEq

/-- The part of the expected time that was valid; zero when nothing was expected. -/
def ratio (valid expected : ℚ) : ℚ := if expected > 0 then min 1 (max 0 (valid / expected)) else 0

def joined (st : Store) (range : Range) (g : GPURow) : List RollupRow :=
  st.rollups.rows.filter (fun r => r.key.node = g.node ∧ r.key.uuid = g.uuid ∧
    r.key.res = range.res ∧ r.key.bucket ≥ range.fromMs ∧ r.key.bucket < range.toMs)

/-- The users of the joined rows in order; a card without rows has one group without a user. -/
def joinedUsers (rows : List RollupRow) : List String :=
  if rows = [] then [""] else (rows.map (fun r => r.key.user)).dedup.insertionSort (· ≤ ·)

def statRow (now : ℤ) (range : Range) (g : GPURow) (userID : String) (rows : List RollupRow) :
    StatRow :=
  let measures := (rows.map RollupRow.measures).sum
  let expected : ℚ :=
    max 0 (((min range.toMs now - max range.fromMs g.firstSeen : ℤ) : ℚ) / 1000)
  { node := g.node
    uuid := g.uuid
    model := g.name
    userID := userID
    user := (rows.map RollupRow.userName).foldl max ""
    occupied := max 0 (measures.occupied / 3600)
    weighted := max 0 (measures.weighted / 3600)
    occupancyValid := measures.occupancyValid
    utilValid := measures.utilValid
    expected := expected
    coverage := ratio measures.occupancyValid expected
    utilCoverage := ratio measures.utilValid expected
    attributionValid := measures.attributionValid }

def gpuStats (now : ℤ) (st : Store) (range : Range) (g : GPURow) : List StatRow :=
  let rows := joined st range g
  (joinedUsers rows).map (fun userID =>
    statRow now range g userID (rows.filter (fun r => r.key.user = userID)))

/-- Cards are ordered by node and UUID. -/
def GPURow.le (g h : GPURow) : Prop := g.node < h.node ∨ g.node = h.node ∧ g.uuid ≤ h.uuid

instance : DecidableRel GPURow.le := fun g h =>
  inferInstanceAs (Decidable (g.node < h.node ∨ g.node = h.node ∧ g.uuid ≤ h.uuid))

def statRows (now : ℤ) (st : Store) (range : Range) (node model : String) : List StatRow :=
  let cards := st.gpus.rows.filter (fun g => (node = "" ∨ g.node = node) ∧
    (model = "" ∨ g.name = model) ∧ g.firstSeen < range.toMs)
  (cards.insertionSort GPURow.le).flatMap (gpuStats now st range)

def StatRow.card (s : StatRow) : String := s.node ++ "/" ++ s.uuid

abbrev Parents := Table StatRow StatRow.card

def parents (rows : List StatRow) : Parents :=
  rows.foldl (fun parent s => if s.userID = "" then parent.put s else parent) Table.empty

/-- The row of a user takes the attributed time of its card. -/
def StatRow.attributed (parent : Parents) (s : StatRow) : StatRow :=
  if s.userID = "" then s
  else
    let p := (parent.find? s.card).getD {}
    { s with
      coverage := ratio p.attributionValid p.expected
      occupancyValid := p.attributionValid }

/-- The user filter matches names and identifiers, whatever the case. -/
def StatRow.matches (p : Platform) (user : String) (s : StatRow) : Bool :=
  user == "" ||
    decide ((p.toLower user).toList <:+: (p.toLower (s.user ++ " " ++ s.userID)).toList)

def filteredStats (p : Platform) (user : String) (rows : List StatRow) : List StatRow :=
  (rows.map (StatRow.attributed (parents rows))).filter (StatRow.matches p user)

structure UserStat where
  node : String
  uid : String
  user : String
  hours : ℚ := 0
  cards : ℕ := 0
  coverage : ℚ := 0
  details : List StatRow := []
deriving DecidableEq

/-- The group that a row belongs to. -/
def StatRow.group (s : StatRow) : String := s.node ++ "/" ++ s.userID

/-- A group under the key of the row that opened it. -/
structure UserGroup where
  key : String
  stat : UserStat
deriving DecidableEq

abbrev UserGroups := Table UserGroup UserGroup.key

def UserGroup.add (s : StatRow) (g : UserGroup) : UserGroup :=
  let stat := { g.stat with
    hours := g.stat.hours + s.occupied
    cards := if s.occupied > 0 then g.stat.cards + 1 else g.stat.cards
    details := g.stat.details ++ [s] }
  { g with stat := stat }

def StatRow.opened (s : StatRow) : UserGroup :=
  ⟨s.group, { node := s.node, uid := s.userID, user := s.user }⟩

def userGroups (rows : List StatRow) : UserGroups :=
  rows.foldl (fun groups s =>
    if s.userID = "" then groups
    else groups.upsert (s.opened.add s) (UserGroup.add s) (fun _ => rfl)) Table.empty

/-- The coverage of a group is taken over all its rows. -/
def UserStat.covered (u : UserStat) : UserStat :=
  let valid := (u.details.map StatRow.occupancyValid).sum
  let expected := (u.details.map StatRow.expected).sum
  { u with coverage := ratio valid expected }

/-- Most hours first, then by node and user. -/
def UserStat.le (u v : UserStat) : Prop :=
  if u.hours ≠ v.hours then u.hours > v.hours else u.node ++ u.uid ≤ v.node ++ v.uid

instance : DecidableRel UserStat.le := fun u v => inferInstanceAs (Decidable
  (if u.hours ≠ v.hours then u.hours > v.hours else u.node ++ u.uid ≤ v.node ++ v.uid))

/-- Groups go by node and user identifier; equal names on two nodes are two users. -/
def groupUserStats (rows : List StatRow) : List UserStat :=
  ((userGroups rows).rows.map (fun g => g.stat.covered)).insertionSort UserStat.le

/-- Some card has more than a hundredth of its time without known users. -/
def incomplete (parent : Parents) : Bool :=
  parent.rows.any (fun p => p.expected > 0 && p.attributionValid / p.expected < 99 / 100)

/-- Text that a spreadsheet would take for a formula is marked as text. -/
def safeCSV (s : String) : String :=
  let trimmed := s.toList.dropWhile (· ∈ [' ', '\t', '\r', '\n'])
  let startsWithFormula := trimmed.head?.any (· ∈ ['=', '+', '-', '@'])
  let startsWithControl := s.toList.head?.any (· ∈ ['\t', '\r'])
  if startsWithFormula || startsWithControl then "'" ++ s else s

def statHeader : List String :=
  ["node", "gpu_uuid", "model", "user_id", "user", "occupied_hours", "weighted_hours",
    "occupancy_coverage", "utilization_coverage", "from_ms", "to_ms"]

/-- The line of a row; what is only known of whole cards stays empty for a user. -/
def StatRow.line (p : Platform) (range : Range) (s : StatRow) : List String :=
  [safeCSV s.node, safeCSV s.uuid, safeCSV s.model, safeCSV s.userID, safeCSV s.user,
    p.fixed 6 s.occupied,
    if s.userID = "" then p.fixed 6 s.weighted else "",
    p.fixed 4 s.coverage,
    if s.userID = "" then p.fixed 4 s.utilCoverage else "",
    toString range.fromMs, toString range.toMs]

def userHeader : List String :=
  ["用户", "节点 ID", "UID", "占用卡时", "使用卡数", "用户归属覆盖率", "开始时间（毫秒）",
    "结束时间（毫秒）"]

def UserStat.line (p : Platform) (range : Range) (u : UserStat) : List String :=
  [safeCSV u.user, safeCSV u.node, safeCSV u.uid, p.fixed 6 u.hours, toString u.cards,
    p.fixed 4 u.coverage, toString range.fromMs, toString range.toMs]

end CardScope.Hub
