import CardScope.Hub.Ingest

/-! # Retention

Raw observations are kept for 48 hours, minute sums and events for 30 days, hour sums
for 500 days. Deleting an edge leaves the sums it contributed to as they are.
-/

namespace CardScope.Hub
open Library Model

def rawCutoff (now : ℤ) : ℤ := now - 48 * 3600000

def expired (now : ℤ) (k : RollupKey) : Bool :=
  (k.res = 60000 ∧ k.bucket < now - 30 * 86400000) ∨
    (k.res = 3600000 ∧ k.bucket < now - 500 * 86400000)

/-- The edge's right end is still a retained point. -/
def rightRetained (st : Store) (now : ℤ) (e : EdgeRow) : Bool :=
  st.points.rows.any (fun p => p.key = e.key ∧ p.atMs ≥ rawCutoff now)

/-- The cleanup transaction at clock reading `now`. -/
def prune (now : ℤ) (st : Store) : Store :=
  { st with
    edges := st.edges.keep (rightRetained st now)
    points := st.points.keep (fun p => p.atMs ≥ rawCutoff now)
    samples := st.samples.keep (fun r => r.atMs ≥ rawCutoff now)
    events := st.events.filter (fun e => e.atMs ≥ now - 30 * 86400000)
    rollups := st.rollups.keep (fun r => !expired now r.key)
    sessions := st.sessions.keep (fun r => r.expires ≥ now) }

/-- What changes the measurements: an upload or a cleanup, each with its clock reading. -/
inductive Event where
  | ingest (now : ℤ) (s : Snapshot)
  | prune (now : ℤ)

def step (st : Store) : Event → Store
  | .ingest now s => ingested now st s
  | .prune now => prune now st

def run (st : Store) (events : List Event) : Store := events.foldl step st

def runIngest (st : Store) (calls : List (ℤ × Snapshot)) : Store :=
  calls.foldl (fun st call => ingested call.1 st call.2) st

section Fixtures

/-- One registered node, as in the hub's tests. -/
def node (id : String) : Table NodeRow NodeRow.id :=
  Table.empty.insert { id := id, name := id, created := 0 } (by rintro ⟨_, ⟨⟩, _⟩)

/-- A healthy card that two users share. -/
def testCard : GPU where
  uuid := "GPU-test"
  name := "NVIDIA Test"
  util := some 50
  memoryUsed := some 8
  memoryTotal := some 24
  status := "ok"
  processStatus := "ok"
  processes := [{ pid := 12, uid := "1000", user := "alice" },
    { pid := 13, uid := "1000", user := "alice" }, { pid := 14, uid := "1001", user := "bob" }]

def sample (id : String) (seq atMs : ℤ) : Snapshot where
  version := 1
  nodeID := id
  bootID := "boot-one"
  seq := seq
  atMs := atMs
  interval := 5
  hostname := "test"
  gpus := [testCard]
  gpuStatus := "ok"

def failedSample (id : String) (seq atMs : ℤ) : Snapshot :=
  { sample id seq atMs with gpus := [], gpuStatus := "query_failed" }

end Fixtures

end CardScope.Hub
