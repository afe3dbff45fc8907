import CardScope.Hub.Http

/-! # Queries of the pages

What the live list, the trends and the event list read from the store. A trend has no value
where nothing valid was measured, which is not the same as a zero.
-/

namespace CardScope.Hub
open Library Model

/-- Decimal digits from the left: none at another character, the greatest value as soon as 64
bits do not suffice. -/
def parseUint : List Char → ℕ → Option ℕ
  | [], n => some n
  | c :: rest, n =>
    if c.isDigit then
      let n := 10 * n + (c.toNat - '0'.toNat)
      if n ≥ 2 ^ 64 then some (2 ^ 64 - 1) else parseUint rest n
    else none

/-- A signed integer of 64 bits; zero when it is malformed, the nearest bound out of range. -/
def parseInt (s : String) : ℤ :=
  let (neg, digits) := match s.toList with
    | '-' :: digits => (true, digits)
    | '+' :: digits => (false, digits)
    | digits => (false, digits)
  if digits = [] then 0
  else match parseUint digits 0 with
    | none => 0
    | some n => if neg then max (-(n : ℤ)) (-2 ^ 63) else min (n : ℤ) (2 ^ 63 - 1)

structure Range where
  fromMs : ℤ
  toMs : ℤ
  res : ℤ
deriving DecidableEq

def align (res t : ℤ) : ℤ := t.tdiv res * res

/-- Minutes or hours by what is still stored, aligned to whole buckets. -/
def queryRange (now : ℤ) (r : Request) : Range :=
  let start := parseInt (r.query "from")
  let stop := parseInt (r.query "to")
  let stop := if stop ≤ 0 ∨ stop > now then now else stop
  let start := if start ≤ 0 then stop - 24 * 3600000 else start
  let start := max start (now - 500 * 86400000)
  let start := if start ≥ stop then stop - 3600000 else start
  let res := if start < now - 30 * 86400000 ∨ stop - start > 7 * 86400000 then 3600000 else 60000
  ⟨align res start, align res (stop + res - 1), res⟩

def steps (start stop width : ℤ) : List ℤ :=
  (List.range ((stop - start + width - 1) / width).toNat).map (fun i => start + i * width)

structure NodeView where
  id : String
  name : String
  expected : ℤ
  networks : List String
  tags : List String
  snapshot : Snapshot
  sampleAt : ℤ
  receivedAt : ℤ
  online : Bool
  enrolled : Bool
  created : ℤ
deriving DecidableEq

/-- A node is online for 30 seconds after a report, while it has a token. -/
def NodeRow.view (now : ℤ) (n : NodeRow) : NodeView where
  id := n.id
  name := n.name
  expected := n.expected
  networks := n.networks
  tags := n.tags
  snapshot := n.snapshot
  sampleAt := n.sampleAt
  receivedAt := n.receivedAt
  online := now - n.receivedAt ≤ 30000 && n.tokenHash != ""
  enrolled := n.tokenHash != ""
  created := n.created

def nodes (now : ℤ) (st : Store) : List NodeView :=
  (st.nodes.rows.insertionSort (fun m n => m.name ≤ n.name)).map (NodeRow.view now)

/-- The means of one bucket and the part of it that was measured. -/
structure HistoryPoint where
  atMs : ℤ
  util : Option ℚ
  memory : Option ℚ
  coverage : ℚ
deriving DecidableEq

def RollupRow.point (res : ℤ) (r : RollupRow) : HistoryPoint where
  atMs := r.key.bucket
  util := if r.measures.utilValid > 0 then some (r.measures.weighted / r.measures.utilValid * 100)
    else none
  memory := if r.measures.memoryValid > 0 then some (r.measures.memorySum / r.measures.memoryValid)
    else none
  coverage := r.measures.utilValid / ((res : ℚ) / 1000)

/-- Buckets without a row are explicit, so that no curve is drawn across them. -/
def fillGaps (res : ℤ) : ℤ → List RollupRow → List HistoryPoint
  | _, [] => []
  | previous, r :: rest =>
    let missing := if previous ≥ 0 then steps (previous + res) r.key.bucket res else []
    missing.map (fun atMs => ⟨atMs, none, none, 0⟩) ++
      r.point res :: fillGaps res r.key.bucket rest

def historyRows (st : Store) (node uuid : String) (range : Range) : List RollupRow :=
  (st.rollups.rows.filter (fun r => r.key.node = node ∧ r.key.uuid = uuid ∧ r.key.user = "" ∧
    r.key.res = range.res ∧ r.key.bucket ≥ range.fromMs ∧ r.key.bucket < range.toMs)).insertionSort
    (fun r s => r.key.bucket ≤ s.key.bucket)

def history (now : ℤ) (st : Store) (r : Request) : Range × List HistoryPoint :=
  let range := queryRange now r
  (range, fillGaps range.res (-1) (historyRows st (r.query "node") (r.query "gpu") range))

/-- The mean over all cards in a quarter of an hour. -/
structure ClusterPoint where
  atMs : ℤ
  util : Option ℚ
deriving DecidableEq

/-- The last day up to the last whole minute, from the start of a quarter of an hour. -/
def clusterRange (now : ℤ) : Range :=
  let stop := align 60000 now
  ⟨align (15 * 60000) (stop - 24 * 3600000), stop, 15 * 60000⟩

def clusterRows (st : Store) (range : Range) (atMs : ℤ) : List RollupRow :=
  st.rollups.rows.filter (fun r => r.key.res = 60000 ∧ r.key.user = "" ∧
    r.key.bucket ≥ range.fromMs ∧ r.key.bucket < range.toMs ∧ st.nodes.HasKey r.key.node ∧
    align range.res r.key.bucket = atMs)

/-- Only valid seconds are averaged; missing data is not idle time. -/
def clusterPoint (st : Store) (range : Range) (atMs : ℤ) : ClusterPoint :=
  let rows := clusterRows st range atMs
  let weighted := (rows.map (fun r => r.measures.weighted)).sum
  let valid := (rows.map (fun r => r.measures.utilValid)).sum
  ⟨atMs, if valid > 0 then some (weighted / valid * 100) else none⟩

def clusterHistory (now : ℤ) (st : Store) : Range × List ClusterPoint :=
  let range := clusterRange now
  (range, (steps range.fromMs range.toMs range.res).map (clusterPoint st range))

structure EventView where
  atMs : ℤ
  kind : EventKind
  detail : EventDetail
deriving DecidableEq

/-- Starts, failures and losses are shown, and failures that older versions recorded. -/
def EventRow.shown (e : EventRow) : Bool :=
  match e.kind with
  | .started | .failure | .missing => true
  | .state => e.detail.status.any (fun status => status != "ok")
  | .other _ => false

def events (st : Store) (r : Request) : List EventView :=
  let found := st.events.filter (fun e => e.node = r.query "node" ∧ e.uuid = r.query "gpu" ∧ e.shown)
  ((found.insertionSort (fun d e => d.atMs ≥ e.atMs)).take 100).map
    (fun e => ⟨e.atMs, e.kind, e.detail⟩)

end CardScope.Hub
