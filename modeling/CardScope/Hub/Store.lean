import CardScope.Hub.Contributions

/-! # The store

One row type for each table of the schema and the store that holds them. Columns that the
source fills with JSON hold the decoded value. Samples and points keep the raw
observations, edges the contribution of each pair of neighbouring points, rollups the
minute and hour sums.
-/

namespace CardScope.Hub
open Library Model

structure LoginCopy where
  eyebrow : String := ""
  title : String := ""
  description : String := ""
  caption : String := ""
deriving DecidableEq

structure SettingRow where
  key : String
  value : LoginCopy
deriving DecidableEq

structure AccountRow where
  username : String
  password : String
  role : String
deriving DecidableEq

structure SessionRow where
  hash : String
  username : String
  csrf : String
  expires : ℤ
deriving DecidableEq

structure NodeRow where
  id : String
  name : String
  tokenHash : String := ""
  codeHash : String := ""
  codeExpires : ℤ := 0
  created : ℤ
  expected : ℤ := 0
  networks : List String := []
  tags : List String := []
  snapshot : Snapshot := {}
  sampleAt : ℤ := 0
  receivedAt : ℤ := 0
deriving DecidableEq

structure SampleRow where
  node : String
  boot : String
  seq : ℤ
  atMs : ℤ
  system : System
deriving DecidableEq

structure GPURow where
  node : String
  uuid : String
  name : String
  firstSeen : ℤ
  lastSeen : ℤ
deriving DecidableEq

/-- A stored point; its sequence number and time are columns as well. -/
structure PointRow where
  node : String
  uuid : String
  boot : String
  seq : ℤ
  atMs : ℤ
  data : Point
  seq_data : data.seq = seq
  at_data : data.atMs = atMs

/-- The contributions of the interval that ends in sample `rightSeq`. -/
structure EdgeRow where
  node : String
  uuid : String
  boot : String
  rightSeq : ℤ
  data : List Contribution

structure RollupRow where
  key : RollupKey
  model : String
  userName : String
  measures : Measures
deriving DecidableEq

/-- `state` and the other kinds were only written by older versions. -/
inductive EventKind where
  | started
  | failure
  | missing
  | state
  | other (kind : String)
deriving DecidableEq

/-- The JSON object in the detail column; an absent member is `none`. -/
structure EventDetail where
  boot : Option String := none
  status : Option String := none
  processStatus : Option String := none
  fields : Option StringMap := none
deriving DecidableEq

structure EventRow where
  node : String
  uuid : String
  atMs : ℤ
  kind : EventKind
  detail : EventDetail
deriving DecidableEq

def SampleRow.key (r : SampleRow) : String × String × ℤ := (r.node, r.boot, r.seq)
def GPURow.key (r : GPURow) : String × String := (r.node, r.uuid)
def PointRow.key (r : PointRow) : String × String × String × ℤ := (r.node, r.uuid, r.boot, r.seq)
def EdgeRow.key (r : EdgeRow) : String × String × String × ℤ :=
  (r.node, r.uuid, r.boot, r.rightSeq)

@[ext] structure Store where
  settings : Table SettingRow SettingRow.key
  accounts : Table AccountRow AccountRow.username
  sessions : Table SessionRow SessionRow.hash
  nodes : Table NodeRow NodeRow.id
  samples : Table SampleRow SampleRow.key
  gpus : Table GPURow GPURow.key
  points : Table PointRow PointRow.key
  edges : Table EdgeRow EdgeRow.key
  rollups : Table RollupRow RollupRow.key
  events : List EventRow

namespace Store

def rollup (st : Store) (k : RollupKey) : Measures := (st.rollups.find? k).elim 0 RollupRow.measures

/-- The sum over the rollups whose key satisfies `p`. -/
def rollupSum (st : Store) (p : RollupKey → Bool) : Measures :=
  st.rollups.sum (fun r => if p r.key then r.measures else 0)

/-- What the stored edges contribute to the rollups whose key satisfies `p`. -/
def edgeSum (st : Store) (p : RollupKey → Bool) : Measures :=
  st.edges.sum (fun r => total p r.data)

def edgeData (st : Store) (node uuid boot : String) (seq : ℤ) : List Contribution :=
  (st.edges.find? (node, uuid, boot, seq)).elim [] EdgeRow.data

def lanePoints (st : Store) (node uuid boot : String) : List Point :=
  (st.points.rows.filter (fun r => r.node = node ∧ r.uuid = uuid ∧ r.boot = boot)).map PointRow.data

theorem mem_lanePoints {st : Store} {node uuid boot : String} {p : Point} :
    p ∈ st.lanePoints node uuid boot ↔
      ∃ r ∈ st.points, r.node = node ∧ r.uuid = uuid ∧ r.boot = boot ∧ r.data = p := by
  simp only [lanePoints, List.mem_map, List.mem_filter, decide_eq_true_eq, Table.mem_def]
  constructor
  · rintro ⟨r, ⟨hr, hn, hu, hb⟩, hp⟩
    exact ⟨r, hr, hn, hu, hb, hp⟩
  · rintro ⟨r, hr, hn, hu, hb, hp⟩
    exact ⟨r, ⟨hr, hn, hu, hb⟩, hp⟩

theorem rollupSum_eq (st : Store) (k : RollupKey) : st.rollupSum (fun l => l = k) = st.rollup k := by
  rw [rollupSum, Table.sum_eq_find?_add _ k, rollup]
  have hrest : (st.rollups.keep (fun r => r.key ≠ k)).sum
      (fun r => if decide (r.key = k) then r.measures else 0) = 0 := by
    apply List.sum_eq_zero
    intro x hx
    obtain ⟨r, hr, rfl⟩ := List.mem_map.mp hx
    have hne : r.key ≠ k := by simpa using (List.mem_filter.mp hr).2
    simp [hne]
  rw [hrest, add_zero]
  cases hf : st.rollups.find? k with
  | none => rfl
  | some r => simp [(Table.find?_eq_some.mp hf).2]

theorem rollupSum_congr {st st' : Store} {p : RollupKey → Bool}
    (h : ∀ k, p k → st.rollup k = st'.rollup k) : st.rollupSum p = st'.rollupSum p := by
  classical
  have hsum : ∀ s : Store, ∀ K : Finset RollupKey, (∀ r ∈ s.rollups, p r.key → r.key ∈ K) →
      s.rollupSum p = ∑ k ∈ K with p k, s.rollup k := by
    intro s K hK
    have hfib : ∀ r ∈ s.rollups, (if p r.key then r.measures else 0) =
        ∑ k ∈ K with p k, if r.key = k then r.measures else 0 := by
      intro r hr
      rw [Finset.sum_ite_eq]
      by_cases hp : p r.key <;> simp [hp, hK r hr]
    rw [rollupSum, Table.sum_congr hfib]
    simp only [← rollupSum_eq, rollupSum, Table.sum, decide_eq_true_eq]
    induction s.rollups.rows with
    | nil => simp
    | cons r rs ih => simp only [List.map_cons, List.sum_cons, ih, Finset.sum_add_distrib]
  let K := (st.rollups.rows.map RollupRow.key).toFinset ∪ (st'.rollups.rows.map RollupRow.key).toFinset
  rw [hsum st K (fun r hr _ => by simp [K]; exact .inl ⟨r, hr, rfl⟩),
    hsum st' K (fun r hr _ => by simp [K]; exact .inr ⟨r, hr, rfl⟩)]
  exact Finset.sum_congr rfl (fun k hk => h k (Finset.mem_filter.mp hk).2)

end Store

/-- The row as registration leaves it, with no report received. -/
def NodeRow.unreported (n : NodeRow) : NodeRow :=
  { n with snapshot := {}, sampleAt := 0, receivedAt := 0 }

/-- A database in which nodes are registered and nothing else has happened. -/
def freshStore (nodes : Table NodeRow NodeRow.id) : Store where
  settings := Table.empty
  accounts := Table.empty
  sessions := Table.empty
  nodes := nodes.update NodeRow.unreported (fun _ => rfl)
  samples := Table.empty
  gpus := Table.empty
  points := Table.empty
  edges := Table.empty
  rollups := Table.empty
  events := []

end CardScope.Hub
