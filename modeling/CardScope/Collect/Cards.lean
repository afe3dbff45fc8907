import CardScope.Hub.Queries

/-! # Queries of the cards

Cards are enumerated and queried through the driver library, and through the command `nvidia-smi`
when that fails. What the two answer is an input here; the collector only reads.
-/

namespace CardScope.Collect
open Library Model Hub

/-! ## Numbers and texts of a command -/

def parseInt32 (s : String) : Option ℤ :=
  let (neg, digits) := match s.toList with
    | '-' :: digits => (true, digits)
    | '+' :: digits => (false, digits)
    | digits => (false, digits)
  if digits = [] then none
  else match parseUint digits 0 with
    | none => none
    | some n =>
      let v : ℤ := if neg then -n else n
      if -2 ^ 31 ≤ v ∧ v < 2 ^ 31 then some v else none

/-- A value of the command in another unit; what reads as no number or as a negative one is
missing. -/
def parsed (parseFloat : String → Option ℚ) (v : String) (scale : ℚ) : Option ℚ :=
  ((parseFloat (trimSpace v)).filter (fun x => 0 ≤ x)).map (fun x => x * scale)

def base (path : String) : String :=
  if path = "" then "."
  else match path.toList.reverse.dropWhile (· == '/') with
    | [] => "/"
    | rest => String.ofList (rest.takeWhile (· != '/')).reverse

def contains (s sub : String) : Bool := decide (sub.toList <:+: s.toList)

def assign (fields : StringMap) (pairs : List (String × String)) : StringMap :=
  pairs.foldl (fun m kv => m.set kv.1 kv.2) fields

/-! ## The driver library -/

def nvStatus (rc : Int32) : String :=
  if rc = 0 then "ok"
  else if rc = 3 then "unsupported"
  else if rc = 4 then "permission_denied"
  else if rc = 6 then "not_found"
  else if rc = 15 then "gpu_lost"
  else "nvml_error_" ++ toString rc.toInt

/-- A return code, and the value that it vouches for. The code is 3 when the query is missing. -/
structure Reply (α : Type) where
  rc : Int32
  value : α

def Reply.metric {α : Type} (r : Reply α) (f : α → ℚ) : Option ℚ :=
  if r.rc = 0 then some (f r.value) else none

/-- What the library answers about a card. There is no `lookup` when it cannot search by UUID, and
no answer of an optional query that is missing. -/
structure NvmlCard where
  lookup : Option Int32
  name : String
  pci : String
  temperature : Reply UInt32
  power : Reply UInt32
  util : Reply UInt32
  memory : Reply (UInt64 × UInt64)
  ecc : Option (Reply UInt64)
  mig : Bool
  processes : Option (Reply (List (UInt32 × UInt64)))

/-- A process that the library lists; all ones are no reading of its memory. -/
def nvProcess (p : UInt32 × UInt64) : Process where
  pid := p.1.toInt32.toInt
  memory := if p.2 = 2 ^ 64 - 1 then none else some p.2.toNat

def nvFields (n : NvmlCard) : List (String × String) :=
  [("temperature", nvStatus n.temperature.rc), ("power", nvStatus n.power.rc),
    ("util", nvStatus n.util.rc), ("memory", nvStatus n.memory.rc)] ++
  (match n.ecc with
    | none => []
    | some r => ("ecc", nvStatus r.rc) ::
      if r.rc = 0 ∧ 0 < r.value then [("health", "ecc_errors_observed")] else []) ++
  if n.mig then [("mig", "enabled")] else []

/-- The processes that the library lists: its buffer holds 4096. -/
def nvProcesses (n : NvmlCard) : List Process :=
  match n.processes with
  | none => []
  | some r => if r.rc = 0 ∧ r.value.length ≤ 4096 then r.value.map nvProcess else []

/-- One card as the library sees it, or why it could not be asked. -/
def nvGPU (uuid : String) (lib : Except String NvmlCard) : Except String GPU := do
  let n ← lib
  match n.lookup with
  | none => .error "missing UUID lookup"
  | some rc =>
    if rc ≠ 0 then .error (nvStatus rc)
    else .ok {
      uuid := uuid
      name := n.name
      pci := n.pci
      util := n.util.metric (fun v => v.toNat)
      memoryUsed := n.memory.metric (fun v => v.2.toNat)
      memoryTotal := n.memory.metric (fun v => v.1.toNat)
      temperature := n.temperature.metric (fun v => v.toNat)
      power := n.power.metric (fun v => v.toNat / 1000)
      ecc := n.ecc.bind (fun r => r.metric (fun v => v.toNat))
      status := if n.temperature.rc = 15 ∨ n.power.rc = 15 then "gpu_lost" else "ok"
      fields := assign Table.empty (nvFields n)
      processes := nvProcesses n
      processStatus := if n.mig then "mig_unsupported"
        else match n.processes with
          | none => "unsupported"
          | some r => nvStatus r.rc
      source := "nvml" }

/-- The cards of the library by index, with UUID and name; an index without a handle has none. -/
def nvInventory (devices : Option (List (Option (String × String)))) : Option (List GPU) :=
  match devices with
  | none => none
  | some devices =>
    if devices.length > 128 then none
    else some (devices.zipIdx.filterMap (fun d => match d.1 with
      | none => none
      | some (uuid, name) =>
        if uuid ≠ "" then some { uuid := uuid, index := d.2, name := name } else none))

/-! ## The command -/

/-- Rows of a table that the command prints, unless it fails. -/
abbrev Rows := Option (List (List String))

def smiCard (r : List String) : Option GPU :=
  match r with
  | [uuid, name, index, pci] => some {
      uuid := trimSpace uuid
      name := trimSpace name
      index := parseInt (trimSpace index)
      pci := trimSpace pci }
  | _ => none

/-- The library first, the command when it fails or finds nothing. -/
def inventory (devices : Option (List (Option (String × String)))) (rows : Rows) :
    Option (List GPU) :=
  match nvInventory devices with
  | some (g :: rest) => some (g :: rest)
  | _ => rows.map (fun rows => rows.filterMap smiCard)

def smiProcess (parseFloat : String → Option ℚ) (r : List String) : Option Process :=
  match r with
  | [pid, memory, name] => (parseInt32 (trimSpace pid)).map (fun pid => {
      pid := pid
      memory := parsed parseFloat memory 1048576
      name := base (trimSpace name) })
  | _ => none

/-- What the two queries of one card meet, and the numbers that the runtime reads in texts. -/
structure CardReadings where
  parseFloat : String → Option ℚ
  nvml : Except String NvmlCard
  metrics : Rows
  apps : Rows

/-- The states of the fields that the command reads: a value that is missing is not supported. -/
def smiFields (util memory temperature power : Option ℚ) : List (String × String) :=
  let mark := fun (p : Option ℚ) => if p.isSome then "ok" else "unsupported"
  [("util", mark util), ("memory", mark memory), ("temperature", mark temperature),
    ("power", mark power)]

def failedGPU (uuid e : String) : GPU where
  uuid := uuid
  status := if contains e "permission_denied" then "permission_denied"
    else if contains e "gpu_lost" then "gpu_lost"
    else "query_failed"
  fields := assign Table.empty [("nvml", e)]
  source := "nvidia-smi"
  processStatus := "query_failed"

def measuredGPU (parseFloat : String → Option ℚ) (g : GPU)
    (name util memoryUsed memoryTotal temperature power pci : String) : GPU :=
  { g with
    name := trimSpace name
    util := parsed parseFloat util 1
    memoryUsed := parsed parseFloat memoryUsed 1048576
    memoryTotal := parsed parseFloat memoryTotal 1048576
    temperature := parsed parseFloat temperature 1
    power := parsed parseFloat power 1
    pci := trimSpace pci
    status := "ok"
    fields := assign g.fields (smiFields (parsed parseFloat util 1)
      (parsed parseFloat memoryUsed 1048576) (parsed parseFloat temperature 1)
      (parsed parseFloat power 1)) }

def listedGPU (parseFloat : String → Option ℚ) (g : GPU) (rows : List (List String)) : GPU :=
  { g with
    processStatus := "ok"
    processes := rows.filterMap (smiProcess parseFloat) }

/-- One card. The command is asked only when the library fails as a whole. -/
def gpu (uuid : String) (r : CardReadings) : GPU :=
  match nvGPU uuid r.nvml with
  | .ok g => g
  | .error e => match r.metrics with
    | some [[name, util, memoryUsed, memoryTotal, temperature, power, pci]] =>
      let g := measuredGPU r.parseFloat (failedGPU uuid e) name util memoryUsed memoryTotal
        temperature power pci
      match r.apps with
      | none => g
      | some rows => listedGPU r.parseFloat g rows
    | _ => failedGPU uuid e

end CardScope.Collect
