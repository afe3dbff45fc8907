import CardScope.Collect.Cards

/-! # One round of collection

The collector reads the host and its cards. It keeps the counters of the last round, the list of
cards for a minute, and when it first saw each process.
-/

namespace CardScope.Collect
open Library Model Hub

/-! ## The host -/

structure NetCounter where
  name : String
  bytesRecv : ℕ
  bytesSent : ℕ

structure Interface where
  name : String
  flags : List String

structure IOCounter where
  name : String
  readBytes : ℕ
  writeBytes : ℕ

structure Partition where
  device : String
  mountpoint : String
  fstype : String

/-- The system call for the capacity of a mount point. -/
inductive Usage where
  | ok (total free : ℕ)
  | denied
  | failed

/-- The process that asks for it: its answer, or why there is none. -/
inductive DiskWorker where
  | done (u : Usage)
  | late
  | crashed

/-- The process that asks for a card. It may not even be started in time. -/
inductive CardWorker where
  | done (r : CardReadings)
  | failed
  | notStarted

/-- What the process table tells; times and names may be missing. -/
structure ProcessInfo where
  created : ℤ
  uids : List UInt32
  username : Option String
  name : Option String

/-- Everything that one round reads, in milliseconds of the clock and seconds of the monotonic
clock. Cards and their processes are asked by position. -/
structure Host where
  nowMs : ℤ
  begun : ℚ
  hostname : String
  cores : ℤ
  cpu : Option (List ℚ)
  load : Option ℚ
  memory : Option (ℕ × ℕ)
  swap : Option (ℕ × ℕ)
  counters : List NetCounter
  countersOk : Bool
  interfaces : List Interface
  route : Option String
  devices : Table IOCounter IOCounter.name
  devicesOk : Bool
  partitions : List Partition
  partitionsOk : Bool
  disk : Partition → DiskWorker
  inspected : ℚ
  inventory : Option (Option (List (Option (String × String))) × Rows)
  renewed : ℚ
  card : ℕ → CardWorker
  process : ℕ → ℕ → Option ProcessInfo

/-- What is kept between two rounds. -/
structure Collector where
  inventory : List GPU
  inventoryAt : Option ℚ
  previous : Option ℚ
  nets : Table NetCounter NetCounter.name
  ios : Table IOCounter IOCounter.name
  seen : Table (String × ℤ) Prod.fst
  wsl : Bool

def Collector.new (osrelease : String) : Collector where
  inventory := []
  inventoryAt := none
  previous := none
  nets := Table.empty
  ios := Table.empty
  seen := Table.empty
  wsl := contains osrelease.toLower "microsoft"

/-! ## System -/

section System

variable (c : Collector) (h : Host)

def elapsed : Option ℚ :=
  c.previous.bind (fun p => if 0 < h.begun - p then some (h.begun - p) else none)

def words (line : List Char) : List String :=
  ((line.splitOnP isSpace).filter (· ≠ [])).map String.ofList

def primary (route : Option String) : String :=
  match route with
  | none => ""
  | some text =>
    let found := ((text.toList.splitOn '\n').map words).find? (fun f =>
      2 < f.length && f[1]? == some "00000000")
    ((found.bind List.head?).getD "")

/-- There is no rate in the first round, or when a counter went back. -/
def network (n : NetCounter) : Network :=
  let r : Network := {
    name := n.name
    rx := n.bytesRecv
    tx := n.bytesSent
    up := h.interfaces.any (fun i => i.name == n.name && i.flags.contains "up")
    primary := n.name == primary h.route }
  match c.nets.find? n.name, elapsed c h with
  | some p, some dt =>
    if p.bytesRecv ≤ n.bytesRecv ∧ p.bytesSent ≤ n.bytesSent then
      { r with
        rxRate := some (((n.bytesRecv - p.bytesRecv : ℕ) : ℚ) / dt)
        txRate := some (((n.bytesSent - p.bytesSent : ℕ) : ℚ) / dt) }
    else r
  | _, _ => r

def blockDevice (n : IOCounter) : BlockIO :=
  let r : BlockIO := { device := n.name }
  match c.ios.find? n.name, elapsed c h with
  | some p, some dt =>
    if p.readBytes ≤ n.readBytes ∧ p.writeBytes ≤ n.writeBytes then
      { r with
        readRate := some (((n.readBytes - p.readBytes : ℕ) : ℚ) / dt)
        writeRate := some (((n.writeBytes - p.writeBytes : ℕ) : ℚ) / dt) }
    else r
  | _, _ => r

/-- Loop devices and RAM disks are left out. -/
def blockDevices : List IOCounter :=
  h.devices.rows.filter (fun n => !n.name.startsWith "loop" && !n.name.startsWith "ram")

/-- The error is that of the field: a lack of permission is no timeout. -/
def diskUsage (path : String) (u : Usage) : Disk :=
  match u with
  | .ok total free => { path := path, total := total, free := free, status := "ok" }
  | .denied => { path := path, status := "permission_denied" }
  | .failed => { path := path, status := "query_failed" }

/-- Of several mounts on one path the last is visible; a device is asked once. -/
def uniqueMounts : List String → List Partition → List Partition
  | _, [] => []
  | devices, p :: rest =>
    if rest.any (fun q => q.mountpoint == p.mountpoint) || p.device ∈ devices ||
        p.fstype == "overlay" || p.device == "none" || p.mountpoint.startsWith "/snap/" then
      uniqueMounts devices rest
    else p :: uniqueMounts (p.device :: devices) rest

def mountedDisk (p : Partition) : Disk :=
  let d : Disk := { path := p.mountpoint, device := p.device, status := "query_failed" }
  match h.disk p with
  | .done u =>
    let result := diskUsage p.mountpoint u
    { d with total := result.total, free := result.free, status := result.status }
  | .late => { d with status := "timeout" }
  | .crashed => d

def errors : List (String × String) :=
  (if h.cpu.any (· ≠ []) then [] else [("cpu", "unavailable")]) ++
  (if h.load.isSome then [] else [("load", "unavailable")]) ++
  (if h.memory.isSome then [] else [("memory", "unavailable")]) ++
  (if h.countersOk then [] else [("network", "unavailable")]) ++
  (if h.devicesOk then [] else [("disk_io", "unavailable")]) ++
  (if h.partitionsOk then [] else [("disk", "unavailable")])

def system : System where
  cpu := if c.previous.isSome then h.cpu.bind List.head? else none
  cores := h.cores
  load := h.load
  memoryTotal := (h.memory.map Prod.fst).getD 0
  memoryAvailable := (h.memory.map Prod.snd).getD 0
  swapTotal := (h.swap.map Prod.fst).getD 0
  swapUsed := (h.swap.map Prod.snd).getD 0
  networks := h.counters.map (network c h)
  disks := ((uniqueMounts [] h.partitions).take 32).map (mountedDisk h)
  io := (blockDevices h).map (blockDevice c h)
  wsl := c.wsl
  errors := assign Table.empty (errors h)

end System

/-! ## Cards -/

section Cards

variable (c : Collector) (h : Host)

def stale : Bool :=
  match c.inventoryAt with
  | none => true
  | some t => 60 < h.inspected - t

/-- The new list of cards, if it is time and nothing fails. -/
def renewal : Option (List GPU) :=
  if stale c h then h.inventory.bind (fun r => inventory r.1 r.2) else none

def known : List GPU := (renewal c h).getD c.inventory

/-- The answer of one card, or what stands for it. -/
def queried (i : ℕ) (card : GPU) : GPU :=
  match h.card i with
  | .notStarted => {
      uuid := card.uuid
      name := card.name
      index := card.index
      status := "timeout"
      processStatus := "unknown" }
  | .failed => { card with
      status := "query_failed"
      processStatus := "unknown"
      fields := assign Table.empty [("query", "timeout_or_failure")]
      seenAt := h.nowMs }
  | .done r =>
    let g := gpu card.uuid r
    { g with
      index := card.index
      seenAt := h.nowMs
      name := if g.name = "" then card.name else g.name }

/-- The user and the name of a process, as far as they can be read. -/
def attributed (info : Option ProcessInfo) (p : Process) : Process :=
  let p := { p with user := "未知" }
  match if c.wsl then none else info with
  | none => p
  | some info => { p with
      created := info.created
      uid := (info.uids.head?.map (fun uid => toString uid.toNat)).getD p.uid
      user := (info.uids.head?.map (fun uid => info.username.getD (toString uid.toNat))).getD p.user
      name := info.name.getD p.name }

/-- The identity of a process: numbers are used again. -/
def processKey (uuid : String) (p : Process) : String :=
  uuid ++ "/" ++ toString p.pid ++ "/" ++ toString p.created

/-- When the process was seen first. -/
def observed (uuid : String) (p : Process) : Process :=
  let first := ((c.seen.find? (processKey uuid p)).map Prod.snd).getD 0
  { p with
    firstSeen := if first = 0 then h.nowMs else first
    lastSeen := h.nowMs }

def card (i : ℕ) (known : GPU) : GPU :=
  let g := queried h i known
  let processes := g.processes.zipIdx.map (fun p =>
    observed c h g.uuid (attributed c (h.process i p.2) p.1))
  let limited := if c.wsl then "wsl_limited" else g.processStatus
  let status := if processes.any (fun p => contains p.name.toLower "mps") then "mps_unsupported"
    else limited
  { g with
    processes := processes
    processStatus := status
    fields := assign g.fields
      ((if c.wsl then
          [("scope", "WSL GPU shared with Windows; process attribution unavailable")] else []) ++
        if status = "ok" ∧ processes.any (fun p => p.uid = "") then [("users", "partial")] else []) }

def gpus : List GPU := (known c h).zipIdx.map (fun g => card c h g.2 g.1)

end Cards

/-- One round: the snapshot, and what is kept for the next. -/
def Collector.sample (c : Collector) (h : Host) : Snapshot × Collector :=
  let cards := gpus c h
  ({ version := 1
     atMs := h.nowMs
     interval := 5
     hostname := h.hostname
     system := system c h
     gpus := cards
     gpuStatus := if stale c h ∧ renewal c h = none then "inventory_failed" else "ok" },
   { inventory := known c h
     inventoryAt := if (renewal c h).isSome then some h.renewed else c.inventoryAt
     previous := some h.begun
     nets := h.counters.foldl Table.put Table.empty
     ios := h.devices
     seen := (cards.flatMap (fun g => g.processes.map (fun p =>
       (processKey g.uuid p, p.firstSeen)))).foldl Table.put Table.empty
     wsl := c.wsl })

end CardScope.Collect
