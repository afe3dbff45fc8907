import CardScope.Library.Chain
import CardScope.Hub.Rollups
import CardScope.Hub.Validation

/-! # Ingesting a report

One transaction stores the sample, one point for each card, the intervals to the points
next to it, the events and the live state of the node. Reports may arrive late and out of
order, so neighbours are looked up by sampling time.
-/

namespace CardScope.Hub
open Library Model

/-- Why a report was not stored. `noRows` is a lookup that found nothing, `constraint` an
insert that hit a primary key. -/
inductive IngestError where
  | invalid (message : String)
  | noRows
  | constraint
deriving DecidableEq

/-- A known card that could not be queried: its identity without any live metric. -/
def queryFailed (s : Snapshot) (g : GPU) : GPU :=
  { g with
    status := "query_failed"
    processStatus := "unknown"
    processes := []
    util := none
    memoryUsed := none
    memoryTotal := none
    temperature := none
    power := none
    ecc := none
    fields := StringMap.set Table.empty "inventory" s.gpuStatus }

/-- A known card that a successful enumeration did not find. -/
def notDetected (g : GPU) : GPU :=
  { g with status := "not_detected", processStatus := "unknown", processes := [] }

/-- The cards of the live state that a failed enumeration carries over: those it does not
list itself and that had been seen by its sampling time. -/
def carriedGPUs (tx : Store) (s : Snapshot) : List GPU → Except IngestError (List GPU)
  | [] => .ok []
  | g :: rest =>
    if s.Lists g.uuid then carriedGPUs tx s rest
    else match tx.gpus.find? (s.nodeID, g.uuid) with
      | none => .error .noRows
      | some row => do
        let later ← carriedGPUs tx s rest
        if row.firstSeen > s.atMs then return later
        return queryFailed s g :: later

/-- The users of a process list by UID; a process without UID has no entry. -/
def usersOf (processes : List Process) : StringMap :=
  processes.foldl (fun users pr => if pr.uid != "" then users.set pr.uid pr.user else users)
    Table.empty

/-- The point of one card. The event fingerprint of the source is written and never read, so
it is left out. -/
def pointOf (s : Snapshot) (g : GPU) : Point :=
  let processValid := g.status == "ok" && g.processStatus == "ok"
  { atMs := s.atMs
    seq := s.seq
    interval := s.interval
    model := g.name
    users := usersOf g.processes
    status := g.status
    processValid := processValid
    userValid := processValid && g.processes.all (fun pr => pr.uid != "")
    util := if g.status == "ok" then g.util else none
    memory := if g.status == "ok" then g.memoryUsed else none
    occupied := !g.processes.isEmpty }

def Store.laneRows (st : Store) (node uuid boot : String) : List PointRow :=
  st.points.rows.filter (fun r => r.node = node ∧ r.uuid = uuid ∧ r.boot = boot)

/-- The latest point before a time; among equal times the one stored last. -/
def Store.pointBefore (st : Store) (node uuid boot : String) (time : ℤ) : Option Point :=
  (latest PointRow.atMs ((st.laneRows node uuid boot).filter (fun r => r.atMs < time))).map
    PointRow.data

/-- The earliest point after a time; among equal times the one stored first. -/
def Store.pointAfter (st : Store) (node uuid boot : String) (time : ℤ) : Option Point :=
  (earliest PointRow.atMs
    ((st.laneRows node uuid boot).reverse.filter (fun r => r.atMs > time))).map PointRow.data

/-- The first point of a client start records its begin, an earlier one moves it back. -/
def startedEvents (s : Snapshot) (g : GPU) (before after : Option Point)
    (events : List EventRow) : List EventRow :=
  if before.isNone && after.isNone then
    ⟨s.nodeID, g.uuid, s.atMs, .started, { boot := some s.bootID }⟩ :: events
  else if before.isNone then
    events.map (fun e =>
      if e.node = s.nodeID ∧ e.uuid = g.uuid ∧ e.kind = .started ∧ e.detail.boot = some s.bootID
      then { e with atMs := min e.atMs s.atMs } else e)
  else events

/-- Consecutive failures are recorded once. -/
def failureEvents (s : Snapshot) (g : GPU) (before : Option Point) (events : List EventRow) :
    List EventRow :=
  if g.status != "ok" && before.all (fun p => p.status == "ok") then
    ⟨s.nodeID, g.uuid, s.atMs, .failure,
      { status := some g.status, processStatus := some g.processStatus,
        fields := some g.fields }⟩ :: events
  else events

def linkNeighbours (tx : Store) (node uuid boot : String) (p : Point)
    (before after : Option Point) : Store :=
  let tx := match before with
    | some a => replaceEdge tx node uuid boot a p
    | none => tx
  match after with
  | some c => replaceEdge tx node uuid boot p c
  | none => tx

def gpuRow (s : Snapshot) (g : GPU) : GPURow := ⟨s.nodeID, g.uuid, g.name, s.atMs, s.atMs⟩

def GPURow.widen (s : Snapshot) (g : GPU) (r : GPURow) : GPURow :=
  { r with
    name := g.name
    firstSeen := min r.firstSeen s.atMs
    lastSeen := max r.lastSeen s.atMs }

def upsertGPU (gpus : Table GPURow GPURow.key) (s : Snapshot) (g : GPU) :
    Table GPURow GPURow.key :=
  gpus.upsert (gpuRow s g) (GPURow.widen s g) (fun _ => rfl)

def pointRow (s : Snapshot) (g : GPU) : PointRow :=
  ⟨s.nodeID, g.uuid, s.bootID, s.seq, s.atMs, pointOf s g, rfl, rfl⟩

def observe (s : Snapshot) (tx : Store) (g : GPU) : Except IngestError Store :=
  let before := tx.pointBefore s.nodeID g.uuid s.bootID s.atMs
  let after := tx.pointAfter s.nodeID g.uuid s.bootID s.atMs
  if h : tx.points.HasKey (pointRow s g).key then .error .constraint
  else
    let tx := { tx with points := tx.points.insert (pointRow s g) h }
    let tx := linkNeighbours tx s.nodeID g.uuid s.bootID (pointOf s g) before after
    .ok { tx with
      events := failureEvents s g before (startedEvents s g before after tx.events)
      gpus := upsertGPU tx.gpus s g }

/-- The cards of the live state that a newer successful report no longer lists. -/
def missingGPUs (s : Snapshot) (node : NodeRow) : List GPU :=
  if s.gpuStatus = "ok" then node.snapshot.gpus.filter (fun g => ¬ s.Lists g.uuid) else []

def NodeRow.setLive (s : Snapshot) (r : NodeRow) : NodeRow :=
  { r with snapshot := s, sampleAt := s.atMs }

def NodeRow.setReceived (now : ℤ) (r : NodeRow) : NodeRow := { r with receivedAt := now }

/-- A card is reported missing when it was not missing in the live state already. -/
def missingEvents (s : Snapshot) (missing : List GPU) : List EventRow :=
  ((missing.filter (fun g => g.status ≠ "not_detected")).map (fun g =>
    ⟨s.nodeID, g.uuid, s.atMs, .missing, { status := some "not_detected" }⟩)).reverse

/-- A report newer than the live state replaces it; missing cards stay in it. -/
def refreshLive (s : Snapshot) (node : NodeRow) (tx : Store) : Store :=
  if s.atMs > node.sampleAt then
    let missing := missingGPUs s node
    let live := { s with gpus := s.gpus ++ missing.map notDetected }
    { tx with
      events := missingEvents s missing ++ tx.events
      nodes := tx.nodes.modify s.nodeID (NodeRow.setLive live) (fun _ => rfl) }
  else tx

/-- Only a sufficiently fresh live report refreshes the time of reception. -/
def refreshReceived (now : ℤ) (s : Snapshot) (node : NodeRow) (tx : Store) : Store :=
  if !s.backfill && s.atMs ≥ node.sampleAt && now - s.atMs ≤ s.interval * 2000 then
    { tx with nodes := tx.nodes.modify s.nodeID (NodeRow.setReceived now) (fun _ => rfl) }
  else tx

def withCarried (tx : Store) (node : NodeRow) (s : Snapshot) : Except IngestError Snapshot :=
  if s.gpuStatus ≠ "ok" then do
    let carried ← carriedGPUs tx s node.snapshot.gpus
    return { s with gpus := s.gpus ++ carried }
  else return s

def sampleRow (s : Snapshot) : SampleRow := ⟨s.nodeID, s.bootID, s.seq, s.atMs, s.system⟩

/-- The transaction of one report at clock reading `now`. A sample identity that is already
stored ends it without any effect. -/
def ingest (now : ℤ) (st : Store) (s : Snapshot) : Except IngestError Store :=
  match validate now s with
  | .error message => .error (.invalid message)
  | .ok () =>
    if h : st.samples.HasKey (sampleRow s).key then .ok st
    else
      let tx := { st with samples := st.samples.insert (sampleRow s) h }
      match tx.nodes.find? s.nodeID with
      | none => .error .noRows
      | some node => do
        let s ← withCarried tx node s
        let tx ← s.gpus.foldlM (observe s) tx
        return refreshReceived now s node (refreshLive s node tx)

/-- The store after a call: an error rolls the transaction back. -/
def ingested (now : ℤ) (st : Store) (s : Snapshot) : Store :=
  match ingest now st s with
  | .ok st' => st'
  | .error _ => st

end CardScope.Hub
