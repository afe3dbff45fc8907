import CardScope.Hub.Store

/-! # Rollups and edges

Contributions are added to the rollups and taken back from them row by row. The edge
table remembers the contributions of an interval under the sequence number of its right
end, so that a late sample can retract them before the two new intervals are added.
-/

namespace CardScope.Hub
open Library Model

/-- Add one contribution, scaled by `sign`, to the row of its key. -/
def upsertRollup (rollups : Table RollupRow RollupRow.key) (c : Contribution) (sign : ℚ) :
    Table RollupRow RollupRow.key :=
  rollups.upsert ⟨c.key, c.model, c.name, sign • c.measures⟩
    (fun r => { r with measures := r.measures + sign • c.measures, userName := c.name })
    (fun _ => rfl)

/-- Accumulate with `sign` 1, retract with `sign` -1. -/
def applyContributions (rollups : Table RollupRow RollupRow.key) (cs : List Contribution)
    (sign : ℚ) : Table RollupRow RollupRow.key :=
  cs.foldl (fun rollups c => upsertRollup rollups c sign) rollups

/-- Replace the interval that ends in `b`: retract what is stored for it, then add and
store the contributions from `a`. -/
def replaceEdge (tx : Store) (node uuid boot : String) (a b : Point) : Store :=
  let retracted := match tx.edges.find? (node, uuid, boot, b.seq) with
    | some old => applyContributions tx.rollups old.data (-1)
    | none => tx.rollups
  let cs := contributions node uuid a b
  { tx with
    rollups := applyContributions retracted cs 1
    edges := tx.edges.put ⟨node, uuid, boot, b.seq, cs⟩ }

@[simp] theorem total_nil (p : RollupKey → Bool) : total p [] = 0 := rfl

theorem total_cons (p : RollupKey → Bool) (c : Contribution) (cs : List Contribution) :
    total p (c :: cs) = (if p c.key then c.measures else 0) + total p cs := by
  simp [total]

theorem total_append (p : RollupKey → Bool) (cs ds : List Contribution) :
    total p (cs ++ ds) = total p cs + total p ds := by
  simp [total]

abbrev sumOn (rollups : Table RollupRow RollupRow.key) (p : RollupKey → Bool) : Measures :=
  rollups.sum (fun r => if p r.key then r.measures else 0)

theorem sumOn_upsertRollup (rollups : Table RollupRow RollupRow.key) (c : Contribution)
    (sign : ℚ) (p : RollupKey → Bool) : sumOn (upsertRollup rollups c sign) p =
      sumOn rollups p + sign • (if p c.key then c.measures else 0) := by
  unfold upsertRollup
  rw [sumOn, Table.sum_upsert]
  · by_cases hp : p c.key <;> simp [hp]
  · intro s hs
    change s.key = c.key at hs
    by_cases hp : p c.key <;> simp [hs, hp]

theorem sumOn_applyContributions (rollups : Table RollupRow RollupRow.key)
    (cs : List Contribution) (sign : ℚ) (p : RollupKey → Bool) :
    sumOn (applyContributions rollups cs sign) p = sumOn rollups p + sign • total p cs := by
  induction cs generalizing rollups with
  | nil => simp [applyContributions]
  | cons c cs ih =>
    change sumOn (applyContributions (upsertRollup rollups c sign) cs sign) p = _
    rw [ih, sumOn_upsertRollup, total_cons, smul_add, add_assoc]

theorem hasKey_applyContributions {rollups : Table RollupRow RollupRow.key}
    {cs : List Contribution} {sign : ℚ} {k : RollupKey} :
    (applyContributions rollups cs sign).HasKey k ↔ (∃ c ∈ cs, c.key = k) ∨ rollups.HasKey k := by
  induction cs generalizing rollups with
  | nil => simp [applyContributions]
  | cons c cs ih =>
    change (applyContributions (upsertRollup rollups c sign) cs sign).HasKey k ↔ _
    rw [ih, upsertRollup, Table.hasKey_upsert, List.exists_mem_cons_iff, or_left_comm, or_assoc]

section ReplaceEdge

variable (tx : Store) (node uuid boot : String) (a b : Point)

@[simp] theorem replaceEdge_settings :
    (replaceEdge tx node uuid boot a b).settings = tx.settings := rfl
@[simp] theorem replaceEdge_accounts :
    (replaceEdge tx node uuid boot a b).accounts = tx.accounts := rfl
@[simp] theorem replaceEdge_sessions :
    (replaceEdge tx node uuid boot a b).sessions = tx.sessions := rfl
@[simp] theorem replaceEdge_nodes : (replaceEdge tx node uuid boot a b).nodes = tx.nodes := rfl
@[simp] theorem replaceEdge_samples :
    (replaceEdge tx node uuid boot a b).samples = tx.samples := rfl
@[simp] theorem replaceEdge_gpus : (replaceEdge tx node uuid boot a b).gpus = tx.gpus := rfl
@[simp] theorem replaceEdge_points : (replaceEdge tx node uuid boot a b).points = tx.points := rfl
@[simp] theorem replaceEdge_events : (replaceEdge tx node uuid boot a b).events = tx.events := rfl
@[simp] theorem replaceEdge_edges : (replaceEdge tx node uuid boot a b).edges =
    tx.edges.put ⟨node, uuid, boot, b.seq, contributions node uuid a b⟩ := rfl

theorem replaceEdge_rollups : (replaceEdge tx node uuid boot a b).rollups =
    applyContributions (applyContributions tx.rollups (tx.edgeData node uuid boot b.seq) (-1))
      (contributions node uuid a b) 1 := by
  simp only [replaceEdge, Store.edgeData]
  cases tx.edges.find? (node, uuid, boot, b.seq) <;> rfl

theorem rollupSum_replaceEdge (p : RollupKey → Bool) :
    (replaceEdge tx node uuid boot a b).rollupSum p =
      tx.rollupSum p - total p (tx.edgeData node uuid boot b.seq) +
        total p (contributions node uuid a b) := by
  change sumOn _ p = sumOn _ p - _ + _
  rw [replaceEdge_rollups, sumOn_applyContributions, sumOn_applyContributions]
  simp [sub_eq_add_neg]

theorem edgeSum_replaceEdge (p : RollupKey → Bool) :
    (replaceEdge tx node uuid boot a b).edgeSum p =
      tx.edgeSum p - total p (tx.edgeData node uuid boot b.seq) +
        total p (contributions node uuid a b) := by
  unfold Store.edgeSum Store.edgeData
  rw [replaceEdge_edges, Table.sum_put]
  change _ - (tx.edges.find? (node, uuid, boot, b.seq)).elim 0 _ + _ = _
  cases tx.edges.find? (node, uuid, boot, b.seq) <;> rfl

theorem edgeData_replaceEdge (n u bt : String) (seq : ℤ) :
    (replaceEdge tx node uuid boot a b).edgeData n u bt seq =
      if (node, uuid, boot, b.seq) = (n, u, bt, seq) then contributions node uuid a b
      else tx.edgeData n u bt seq := by
  unfold Store.edgeData
  rw [replaceEdge_edges, Table.find?_put]
  by_cases h : (node, uuid, boot, b.seq) = (n, u, bt, seq) <;> simp [EdgeRow.key, h]

end ReplaceEdge

end CardScope.Hub
