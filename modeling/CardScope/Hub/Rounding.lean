import CardScope.Library.Binary64
import CardScope.Hub.Prune

/-! # Rounded sums

The numbers of contributions and rollups are binary64. Here a rounding follows every operation on
them; with none the definitions are the exact ones.
-/

namespace CardScope.Hub.Rounded
open Library Model

variable (round : ℚ → ℚ)

def cardMeasures (a : Point) (sec : ℚ) : Measures :=
  { Hub.cardMeasures a sec with
    weighted := a.util.elim 0 (fun util => round (round (sec * util) / 100))
    memorySum := a.memory.elim 0 (fun memory => round (sec * memory)) }

def sliceContributions (node uuid : String) (a : Point) (res : ℤ) (s : Slice) :
    List Contribution :=
  let sec := round ((s.span : ℚ) / 1000)
  { key := ⟨node, uuid, "", res, s.bucket⟩, model := a.model, name := "",
    measures := cardMeasures round a sec } ::
  if a.processValid then
    a.users.rows.map (fun user =>
      { key := ⟨node, uuid, user.1, res, s.bucket⟩, model := a.model, name := user.2,
        measures := userMeasures sec })
  else []

def contributions (node uuid : String) (a b : Point) : List Contribution :=
  if b.atMs ≤ a.atMs ∨ b.atMs - a.atMs > 2 * a.interval * 1000 then []
  else [60000, 3600000].flatMap (fun res =>
    (slices res a.atMs b.atMs).flatMap (sliceContributions round node uuid a res))

def add (a b : Measures) : Measures where
  occupied := round (a.occupied + b.occupied)
  weighted := round (a.weighted + b.weighted)
  occupancyValid := round (a.occupancyValid + b.occupancyValid)
  utilValid := round (a.utilValid + b.utilValid)
  memorySum := round (a.memorySum + b.memorySum)
  memoryValid := round (a.memoryValid + b.memoryValid)
  attributionValid := round (a.attributionValid + b.attributionValid)

def upsertRollup (rollups : Table RollupRow RollupRow.key) (c : Contribution) (sign : ℚ) :
    Table RollupRow RollupRow.key :=
  rollups.upsert ⟨c.key, c.model, c.name, sign • c.measures⟩
    (fun r => { r with measures := add round r.measures (sign • c.measures), userName := c.name })
    (fun _ => rfl)

def applyContributions (rollups : Table RollupRow RollupRow.key) (cs : List Contribution)
    (sign : ℚ) : Table RollupRow RollupRow.key :=
  cs.foldl (fun rollups c => upsertRollup round rollups c sign) rollups

def replaceEdge (tx : Store) (node uuid boot : String) (a b : Point) : Store :=
  let retracted := match tx.edges.find? (node, uuid, boot, b.seq) with
    | some old => applyContributions round tx.rollups old.data (-1)
    | none => tx.rollups
  let cs := contributions round node uuid a b
  { tx with
    rollups := applyContributions round retracted cs 1
    edges := tx.edges.put ⟨node, uuid, boot, b.seq, cs⟩ }

def linkNeighbours (tx : Store) (node uuid boot : String) (p : Point)
    (before after : Option Point) : Store :=
  let tx := match before with
    | some a => replaceEdge round tx node uuid boot a p
    | none => tx
  match after with
  | some c => replaceEdge round tx node uuid boot p c
  | none => tx

def observe (s : Snapshot) (tx : Store) (g : GPU) : Except IngestError Store :=
  let before := tx.pointBefore s.nodeID g.uuid s.bootID s.atMs
  let after := tx.pointAfter s.nodeID g.uuid s.bootID s.atMs
  if h : tx.points.HasKey (pointRow s g).key then .error .constraint
  else
    let tx := { tx with points := tx.points.insert (pointRow s g) h }
    let tx := linkNeighbours round tx s.nodeID g.uuid s.bootID (pointOf s g) before after
    .ok { tx with
      events := failureEvents s g before (startedEvents s g before after tx.events)
      gpus := upsertGPU tx.gpus s g }

def ingest (now : ℤ) (st : Store) (s : Snapshot) : Except IngestError Store :=
  match validate now s with
  | .error message => .error (.invalid message)
  | .ok () =>
    if h : st.samples.HasKey (sampleRow s).key then .ok st
    else
      let tx := { st with samples := st.samples.insert (sampleRow s) h }
      match tx.nodes.find? s.nodeID with
      | none => .error .noRows
      | some node => do
        let s ← withCarried tx node s
        let tx ← s.gpus.foldlM (observe round s) tx
        return refreshReceived now s node (refreshLive s node tx)

def ingested (now : ℤ) (st : Store) (s : Snapshot) : Store :=
  match ingest round now st s with
  | .ok st' => st'
  | .error _ => st

def runIngest (st : Store) (calls : List (ℤ × Snapshot)) : Store :=
  calls.foldl (fun st call => ingested round call.1 st call.2) st

/-! ## Exact sums -/

theorem contributions_id : contributions id = Hub.contributions := rfl

theorem add_id (a b : Measures) : add id a b = a + b := rfl

theorem applyContributions_id : applyContributions id = Hub.applyContributions := by
  funext rollups cs sign
  simp only [applyContributions, upsertRollup, add_id]
  rfl

theorem replaceEdge_id : replaceEdge id = Hub.replaceEdge := by
  funext tx node uuid boot a b
  unfold replaceEdge Hub.replaceEdge
  cases tx.edges.find? (node, uuid, boot, b.seq) <;>
    simp only [applyContributions_id, contributions_id]

theorem linkNeighbours_id : linkNeighbours id = Hub.linkNeighbours := by
  funext tx node uuid boot p before after
  unfold linkNeighbours Hub.linkNeighbours
  cases before <;> cases after <;> simp only [replaceEdge_id]

theorem observe_id : observe id = Hub.observe := by
  funext s tx g
  unfold observe Hub.observe
  rw [linkNeighbours_id]

theorem ingest_id : ingest id = Hub.ingest := by
  funext now st s
  unfold ingest Hub.ingest
  cases validate now s with
  | error message => rfl
  | ok _ =>
    by_cases h : st.samples.HasKey (sampleRow s).key
    · simp only [dif_pos h]
    · cases hn : st.nodes.find? s.nodeID <;> simp only [dif_neg h, hn, observe_id]

theorem ingested_id : ingested id = Hub.ingested := by
  funext now st s
  unfold ingested Hub.ingested
  cases h : Hub.ingest now st s <;> simp only [ingest_id, h]

/-- Without rounding the runs are the exact ones. -/
theorem runIngest_id : runIngest id = Hub.runIngest := by
  funext st calls
  unfold runIngest Hub.runIngest
  rw [ingested_id]

end CardScope.Hub.Rounded
