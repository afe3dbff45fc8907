import CardScope.Library.Table

/-! # Reported structures

The structures that client and hub share. Times are Unix milliseconds, capacities are
bytes, rates are bytes per second. A metric that may be missing is an `Option`: `none`
is unavailable, `some 0` is a zero that was read. Numbers are exact rationals, so the
not-a-number and infinite floats that JSON cannot carry do not exist here. Field
defaults are the zero values of the source.
-/

namespace CardScope.Model
open Library

/-- A map from strings to strings, as decoded from a JSON object. -/
abbrev StringMap := Table (String × String) Prod.fst

def StringMap.set (m : StringMap) (k v : String) : StringMap := m.put (k, v)

/-- A compute process seen on a card in one sample. -/
structure Process where
  pid : ℤ := 0
  uid : String := ""
  user : String := ""
  name : String := ""
  created : ℤ := 0
  memory : Option ℚ := none
  firstSeen : ℤ := 0
  lastSeen : ℤ := 0
deriving DecidableEq

/-- A card. Its history is tied to `uuid`; `index` is for display and may change. -/
structure GPU where
  uuid : String := ""
  name : String := ""
  index : ℤ := 0
  pci : String := ""
  util : Option ℚ := none
  memoryUsed : Option ℚ := none
  memoryTotal : Option ℚ := none
  temperature : Option ℚ := none
  power : Option ℚ := none
  ecc : Option ℚ := none
  status : String := ""
  fields : StringMap := Table.empty
  processes : List Process := []
  processStatus : String := ""
  source : String := ""
  seenAt : ℤ := 0
deriving DecidableEq

structure Network where
  name : String := ""
  rx : ℕ := 0
  tx : ℕ := 0
  rxRate : Option ℚ := none
  txRate : Option ℚ := none
  up : Bool := false
  primary : Bool := false
deriving DecidableEq

structure Disk where
  path : String := ""
  device : String := ""
  total : ℕ := 0
  free : ℕ := 0
  status : String := ""
deriving DecidableEq

structure BlockIO where
  device : String := ""
  readRate : Option ℚ := none
  writeRate : Option ℚ := none
deriving DecidableEq

structure System where
  cpu : Option ℚ := none
  cores : ℤ := 0
  load : Option ℚ := none
  memoryTotal : ℕ := 0
  memoryAvailable : ℕ := 0
  swapTotal : ℕ := 0
  swapUsed : ℕ := 0
  networks : List Network := []
  disks : List Disk := []
  io : List BlockIO := []
  wsl : Bool := false
  errors : StringMap := Table.empty
deriving DecidableEq

/-- One complete report. `nodeID`, `bootID` and `seq` together identify it at the hub;
`bootID` is drawn anew on every client start. -/
structure Snapshot where
  version : ℤ := 0
  nodeID : String := ""
  bootID : String := ""
  seq : ℤ := 0
  atMs : ℤ := 0
  interval : ℤ := 0
  hostname : String := ""
  system : System := {}
  gpus : List GPU := []
  gpuStatus : String := ""
  cacheDropped : ℤ := 0
  backfill : Bool := false
deriving DecidableEq

/-- The idempotency key of a report. -/
def Snapshot.identity (s : Snapshot) : String × String × ℤ := (s.nodeID, s.bootID, s.seq)

def Snapshot.Lists (s : Snapshot) (uuid : String) : Prop := ∃ g ∈ s.gpus, g.uuid = uuid

instance (s : Snapshot) (uuid : String) : Decidable (s.Lists uuid) :=
  inferInstanceAs (Decidable (∃ g ∈ s.gpus, g.uuid = uuid))

end CardScope.Model
