import Mathlib

/-! # What the pages know of a card

The records of the live list and the predicates on cards that all pages share. A missing value is
`none`; a list that is null is empty.
-/

namespace CardScope.Web

/-- What the browser provides. -/
structure Browser where
  toLowerCase : String → String
  toLowerCase_empty : toLowerCase "" = ""
  /-- Negative when the first string is sorted before the second one. -/
  localeCompare : String → String → ℤ
  /-- The number that a text denotes, if any. -/
  number : String → Option ℚ
  number_zero : number "0" = some 0
  /-- The text of a number. -/
  text : ℚ → String

structure Process where
  user : String
deriving DecidableEq

structure GPU where
  uuid : String
  name : String
  index : ℤ := 0
  util : Option ℚ := none
  memoryUsed : Option ℚ := none
  memoryTotal : Option ℚ := none
  temperature : Option ℚ := none
  status : String := "ok"
  fields : List (String × String) := []
  processes : List Process := []
  processStatus : String := "ok"
deriving DecidableEq

structure Snapshot where
  hostname : String := ""
  gpuStatus : String := ""
  gpus : List GPU := []
deriving DecidableEq

structure Node where
  id : String
  name : String
  expected : ℤ := 0
  tags : List String := []
  snapshot : Snapshot := {}
  online : Bool := true
  enrolled : Bool := true
deriving DecidableEq

def gib : ℚ := 1024 ^ 3

/-- Total memory in whole GiB, so that small driver reservations do not split identical cards.
Unknown capacity is a group of its own. -/
def capacityKey (g : GPU) : String :=
  match g.memoryTotal with
  | some total => if total > 0 then toString (max 1 ⌊total / gib + 1 / 2⌋₊) else "unknown"
  | none => "unknown"

def users (g : GPU) : List String :=
  (g.processes.map (fun p => if p.user = "" then "未知" else p.user)).eraseDups

def unhealthy (g : GPU) : Bool := (g.fields.lookup "health").any (fun health => health != "")

/-- Nothing runs on the card and everything that tells this is known. -/
def idle (g : GPU) (n : Node) : Bool :=
  n.online && g.status == "ok" && !unhealthy g && g.temperature.all (fun t => t < 85) &&
    g.processStatus == "ok" && g.processes.isEmpty && g.util.any (fun u => u < 5) &&
    (match g.memoryUsed, g.memoryTotal with
      | some used, some total => total > 0 && used / total < 5 / 100
      | _, _ => false)

def bad (g : GPU) : Bool := g.status != "ok" || unhealthy g

theorem capacityKey_ne (g : GPU) : capacityKey g ≠ "" := by
  unfold capacityKey
  split
  · split_ifs
    · exact Nat.repr_ne_empty
    · decide
  · decide

end CardScope.Web
