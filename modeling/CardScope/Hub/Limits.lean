import CardScope.Hub.Store

/-! # Rate limits

Requests are counted in windows of one minute, under a key for each source address or node.
The counters live in the process, not in the database.
-/

namespace CardScope.Hub
open Library

structure Rate where
  key : String
  count : ℕ
  reset : ℤ
deriving DecidableEq

abbrev Rates := Table Rate Rate.key

/-- Many counters make room by dropping those whose window has passed. -/
def trimRates (rates : Rates) (now : ℤ) : Rates :=
  if rates.rows.length > 4096 then rates.keep (fun r => ¬ now > r.reset) else rates

/-- Count a request under `key`; it is refused over the limit, or when there are too many
counters. -/
def allowed (rates : Rates) (now : ℤ) (key : String) (limit : ℕ) : Bool × Rates :=
  let rates := trimRates rates now
  if rates.rows.length > 4096 then (false, rates)
  else match rates.find? key with
    | none => (true, rates.put ⟨key, 1, now + 60000⟩)
    | some r =>
      if now > r.reset then (true, rates.put ⟨key, 1, now + 60000⟩)
      else (decide (r.count + 1 ≤ limit), rates.put { r with count := r.count + 1 })

structure HubState where
  db : Store
  rates : Rates

end CardScope.Hub
