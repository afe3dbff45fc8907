import CardScope.Library.Groups
import CardScope.Library.Json
import CardScope.Web.Status

/-! # The summary of the dashboard

Every card has one state. The cards are counted by state and, by model and capacity, under a
serialised key; the issues say what needs attention.
-/

namespace CardScope.Web
open Library

inductive GPUState where
  | idle
  | busy
  | attention
  | unknown
  | offline
deriving DecidableEq

def gpuState (g : GPU) (n : Node) : GPUState :=
  if !n.online then .offline
  else if bad g || g.temperature.any (fun t => t ≥ 85) then .attention
  else if idle g n then .idle
  else if g.processStatus != "ok" || g.util.isNone || g.memoryUsed.isNone ||
      g.memoryTotal.all (fun total => total == 0) then .unknown
  else .busy

structure ModelCount where
  key : String
  capacity : String
  name : String
  total : ℕ := 0
  idle : ℕ := 0
deriving DecidableEq

structure Issue where
  key : String
  title : String
  detail : String
  node : Node
  gpu : Option GPU := none
deriving DecidableEq

abbrev Card := GPU × Node

def cards (nodes : List Node) : List Card :=
  nodes.flatMap (fun n => n.snapshot.gpus.map (fun g => (g, n)))

theorem cards_cons (n : Node) (nodes : List Node) :
    cards (n :: nodes) = n.snapshot.gpus.map (fun g => (g, n)) ++ cards nodes := List.flatMap_cons

def opened (c : Card) : ModelCount where
  key := stringify [c.1.name, capacityKey c.1]
  capacity := capacityKey c.1
  name := c.1.name

def ModelCount.add (c : Card) (m : ModelCount) : ModelCount :=
  { m with
    total := m.total + 1
    idle := if gpuState c.1 c.2 = .idle then m.idle + 1 else m.idle }

theorem add_key (c : Card) (m : ModelCount) : (ModelCount.add c m).key = m.key := rfl

structure Tally where
  counts : GPUState → ℕ := fun _ => 0
  detected : ℕ := 0
  missing : ℤ := 0
  utilSum : ℚ := 0
  utilCount : ℕ := 0
  issues : List Issue := []
  models : Table ModelCount ModelCount.key := Table.empty

/-- Expected cards that are not there. -/
def absent (n : Node) : ℤ := max 0 (n.expected - n.snapshot.gpus.length)

def nodeIssues (b : Browser) (n : Node) : List Issue :=
  let reach := if !n.online then
      [{ key := n.id, title := if n.enrolled then "节点离线" else "等待节点接入", detail := n.name,
         node := n : Issue }]
    else if n.snapshot.gpuStatus != "" && n.snapshot.gpuStatus != "ok" then
      [{ key := n.id ++ "-collect", title := "GPU 采集受限", detail := n.name, node := n }]
    else []
  let lost := if absent n ≠ 0 ∧ n.online then
      [{ key := n.id ++ "-missing", title := "未检测到 " ++ b.text (absent n) ++ " 张 GPU",
         detail := n.name ++ " · 预期 " ++ b.text n.expected ++ " 张", node := n : Issue }]
    else []
  reach ++ lost

def gpuIssues (b : Browser) (c : Card) : List Issue :=
  let (g, n) := c
  let state := gpuState g n
  if state = .attention ∨ state = .unknown then
    [{ key := n.id ++ "-" ++ g.uuid
       title := if bad g then "采集或健康异常"
         else if state = .unknown then "采集信息不完整"
         else "温度偏高 · " ++ (g.temperature.map b.text).getD "" ++ "°C"
       detail := n.name ++ " · GPU " ++ b.text g.index
       node := n
       gpu := some g }]
  else []

def Tally.addGPU (b : Browser) (t : Tally) (c : Card) : Tally :=
  let state := gpuState c.1 c.2
  let measured := if c.2.online && c.1.status == "ok" then c.1.util else none
  { t with
    counts := Function.update t.counts state (t.counts state + 1)
    detected := t.detected + 1
    utilSum := t.utilSum + measured.getD 0
    utilCount := if measured.isSome then t.utilCount + 1 else t.utilCount
    issues := t.issues ++ gpuIssues b c
    models := t.models.upsert (ModelCount.add c (opened c)) (ModelCount.add c) (add_key c) }

def Tally.addNode (b : Browser) (t : Tally) (n : Node) : Tally :=
  (n.snapshot.gpus.map (fun g => (g, n))).foldl (Tally.addGPU b)
    { t with missing := t.missing + absent n, issues := t.issues ++ nodeIssues b n }

structure Summary where
  counts : GPUState → ℕ
  detected : ℕ
  missing : ℤ
  issues : List Issue
  models : List ModelCount
  online : ℕ
  util : Option ℚ
  utilCount : ℕ

/-- Most idle cards first, then by name. -/
def ModelCount.before (b : Browser) (l m : ModelCount) : Prop :=
  if m.idle ≠ l.idle then m.idle < l.idle else b.localeCompare l.name m.name ≤ 0

instance (b : Browser) : DecidableRel (ModelCount.before b) := fun l m => inferInstanceAs
  (Decidable (if m.idle ≠ l.idle then m.idle < l.idle else b.localeCompare l.name m.name ≤ 0))

def summarize (b : Browser) (nodes : List Node) : Summary :=
  let t := nodes.foldl (Tally.addNode b) {}
  { counts := t.counts
    detected := t.detected
    missing := t.missing
    issues := t.issues
    models := t.models.rows.reverse.insertionSort (ModelCount.before b)
    online := nodes.countP (fun n => n.online)
    util := if t.utilCount ≠ 0 then some (t.utilSum / t.utilCount) else none
    utilCount := t.utilCount }

/-! ## The loops -/

/-- What no node changes by itself is counted over the cards. -/
theorem foldl_addNode {α : Type*} (b : Browser) (f : Tally → α) (g : α → Card → α)
    (hnode : ∀ t n, f { t with missing := t.missing + absent n, issues := t.issues ++ nodeIssues b n } =
      f t)
    (hcard : ∀ t c, f (Tally.addGPU b t c) = g (f t) c) (nodes : List Node) (t : Tally) :
    f (nodes.foldl (Tally.addNode b) t) = (cards nodes).foldl g (f t) := by
  have hcards : ∀ (cs : List Card) (t : Tally), f (cs.foldl (Tally.addGPU b) t) = cs.foldl g (f t) := by
    intro cs
    induction cs with
    | nil => exact fun t => rfl
    | cons c cs ih =>
      intro t
      rw [List.foldl_cons, ih, hcard, List.foldl_cons]
  induction nodes generalizing t with
  | nil => rfl
  | cons n nodes ih =>
    rw [List.foldl_cons, ih, cards_cons, List.foldl_append, Tally.addNode, hcards, hnode]

/-! ## The models -/

theorem models_eq (b : Browser) (nodes : List Node) :
    (nodes.foldl (Tally.addNode b) {}).models =
      grouped opened ModelCount.add add_key (cards nodes) :=
  foldl_addNode b Tally.models _ (fun _ _ => rfl) (fun _ _ => rfl) nodes {}

theorem foldl_add (own : List Card) (m : ModelCount) :
    own.foldl (fun m c => ModelCount.add c m) m =
      { m with
        total := m.total + own.length
        idle := m.idle + own.countP (fun c => gpuState c.1 c.2 = .idle) } := by
  induction own generalizing m with
  | nil => rfl
  | cons c own ih =>
    rw [List.foldl_cons, ih]
    by_cases hc : gpuState c.1 c.2 = .idle <;>
      simp [ModelCount.add, hc, add_assoc, Nat.add_comm 1]

def cardsOf (nodes : List Node) (name capacity : String) : List Card :=
  (cards nodes).filter (fun c => c.1.name = name ∧ capacityKey c.1 = capacity)

theorem mem_models {b : Browser} {nodes : List Node} {m : ModelCount}
    (h : m ∈ (summarize b nodes).models) :
    m.total = (cardsOf nodes m.name m.capacity).length ∧
      m.idle = (cardsOf nodes m.name m.capacity).countP (fun c => gpuState c.1 c.2 = .idle) ∧
      cardsOf nodes m.name m.capacity ≠ [] := by
  have hrow : m ∈ grouped opened ModelCount.add add_key (cards nodes) := by
    rw [← models_eq b nodes]
    exact List.mem_reverse.mp ((List.mem_insertionSort _).mp h)
  have hof := mem_grouped.mp hrow
  cases hown : (cards nodes).filter (fun c => (opened c).key = m.key) with
  | nil =>
    rw [hown] at hof
    cases hof
  | cons c rest =>
    rw [hown, groupOf, Option.some_inj, foldl_add] at hof
    subst hof
    have hsame : cardsOf nodes c.1.name (capacityKey c.1) = c :: rest := by
      rw [← hown]
      apply List.filter_congr
      intro d _
      simp only [opened, stringify_pair]
    simp [opened, hsame]

end CardScope.Web
