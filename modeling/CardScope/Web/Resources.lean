import CardScope.Web.Summary

/-! # The list of resources

The list shows the cards that pass every filter; an empty filter lets all cards pass. A row of the
dashboard sets the filters to its own model and capacity, so an empty model name opens the idle
cards of all models.
-/

namespace CardScope.Web
open Library

/-- The filters of the list; texts as the controls hold them. -/
structure Filters where
  search : String := ""
  status : String := "all"
  sort : String := "name"
  free : String := "0"
  model : String := ""
  capacity : String := ""
  tag : String := ""
  nodeId : String := ""
deriving DecidableEq

def includes (s part : String) : Bool := decide (part.toList <:+: s.toList)

def Filters.enough (b : Browser) (f : Filters) (g : GPU) : Bool :=
  b.number f.free == some 0 ||
    match g.memoryTotal, g.memoryUsed, b.number f.free with
    | some total, some used, some free => (total - used) / gib ≥ free
    | _, _, _ => false

def Filters.passes (b : Browser) (f : Filters) (n : Node) (g : GPU) : Bool :=
  let q := b.toLowerCase f.search
  let text := n.name ++ " " ++ n.snapshot.hostname ++ " " ++ " ".intercalate n.tags ++ " " ++
    g.name ++ " " ++ " ".intercalate (users g)
  (q == "" || includes (b.toLowerCase text) q) &&
    (f.model == "" || g.name == f.model) &&
    (f.capacity == "" || capacityKey g == f.capacity) &&
    (f.status == "all" || (f.status == "idle" && idle g n) || (f.status == "fault" && bad g) ||
      (f.status == "offline" && !n.online)) &&
    f.enough b g

/-- A node without cards is shown only when nothing asks for cards. -/
def Filters.showsEmpty (b : Browser) (f : Filters) (n : Node) : Bool :=
  let text := n.name ++ " " ++ n.snapshot.hostname ++ " " ++ " ".intercalate n.tags
  (f.search == "" || includes (b.toLowerCase text) (b.toLowerCase f.search)) &&
    f.status == "all" && f.model == "" && f.capacity == "" && b.number f.free == some 0

def Node.restrict (b : Browser) (f : Filters) (n : Node) : Node :=
  { n with snapshot := { n.snapshot with gpus := n.snapshot.gpus.filter (f.passes b n) } }

def Filters.before (b : Browser) (f : Filters) (m n : Node) : Prop :=
  if f.sort = "idle" then
    n.snapshot.gpus.countP (fun g => idle g n) ≤ m.snapshot.gpus.countP (fun g => idle g m)
  else if f.sort = "fault" then n.snapshot.gpus.countP bad ≤ m.snapshot.gpus.countP bad
  else b.localeCompare m.name n.name ≤ 0

instance (b : Browser) (f : Filters) : DecidableRel (f.before b) := fun m n => by
  unfold Filters.before
  infer_instance

def filtered (b : Browser) (nodes : List Node) (f : Filters) : List Node :=
  let kept := nodes.filter (fun n => f.nodeId == "" || n.id == f.nodeId)
  let tagged := kept.filter (fun n => f.tag == "" || n.tags.contains f.tag)
  let restricted := tagged.map (Node.restrict b f)
  let shown := restricted.filter (fun n => !n.snapshot.gpus.isEmpty || f.showsEmpty b n)
  shown.insertionSort (f.before b)

def gpusLeft (b : Browser) (nodes : List Node) (f : Filters) : ℕ :=
  ((filtered b nodes f).map (fun n => n.snapshot.gpus.length)).sum

/-- The filters that a row of the dashboard sets. -/
def rowFilters (m : ModelCount) : Filters :=
  { model := m.name, capacity := m.capacity, status := "idle" }

/-! ## Counting -/

/-- The dashboard calls a card idle when the filter does. -/
theorem gpuState_eq_idle_iff (g : GPU) (n : Node) : gpuState g n = .idle ↔ idle g n = true := by
  constructor
  · intro h
    unfold gpuState at h
    split_ifs at h with honline hattention hidle
    exact hidle
  · intro h
    have hparts := h
    simp only [idle, Bool.and_eq_true] at hparts
    obtain ⟨⟨⟨⟨⟨⟨⟨honline, hstatus⟩, hhealth⟩, hcool⟩, -⟩, -⟩, -⟩, -⟩ := hparts
    have hbad : bad g = false := by
      unfold bad
      simp_all
    have hwarm : g.temperature.any (fun t => t ≥ 85) = false := by
      cases ht : g.temperature with
      | none => rfl
      | some t => simpa [ht] using hcool
    simp [gpuState, honline, hbad, hwarm, h]

theorem sum_shown (shown : Node → Bool) (l : List Node) :
    ((l.filter (fun n => !n.snapshot.gpus.isEmpty || shown n)).map
      (fun n => n.snapshot.gpus.length)).sum = (l.map (fun n => n.snapshot.gpus.length)).sum := by
  induction l with
  | nil => rfl
  | cons n l ih =>
    cases hgpus : n.snapshot.gpus with
    | nil => cases hshown : shown n <;> simp [hgpus, hshown, ih]
    | cons g rest => simp [hgpus, ih]

/-- Without a node and a tag the cards that are left are those that pass. -/
theorem gpusLeft_eq (b : Browser) (nodes : List Node) (f : Filters) (hnode : f.nodeId = "")
    (htag : f.tag = "") :
    gpusLeft b nodes f = (cards nodes).countP (fun c => f.passes b c.2 c.1) := by
  have hkept : nodes.filter (fun n => f.nodeId == "" || n.id == f.nodeId) = nodes :=
    List.filter_eq_self.mpr (fun n _ => by simp [hnode])
  have htagged : nodes.filter (fun n => f.tag == "" || n.tags.contains f.tag) = nodes :=
    List.filter_eq_self.mpr (fun n _ => by simp [htag])
  simp only [gpusLeft, filtered, hkept, htagged]
  rw [((List.perm_insertionSort _ _).map _).sum_eq, sum_shown, cards, List.countP_flatMap,
    List.map_map]
  congr 1
  apply List.map_congr_left
  intro n _
  change (n.snapshot.gpus.filter (f.passes b n)).length =
    (n.snapshot.gpus.map (fun g => (g, n))).countP (fun c => f.passes b c.2 c.1)
  rw [List.countP_map, ← List.countP_eq_length_filter]
  rfl

/-- Under the filters of a row an idle card of the capacity is left unless its name differs from a
name that is asked for. -/
theorem passes_rowFilters (b : Browser) (m : ModelCount) (hcapacity : m.capacity ≠ "") (n : Node)
    (g : GPU) : (rowFilters m).passes b n g =
      ((m.name == "" || g.name == m.name) && capacityKey g == m.capacity && idle g n) := by
  have hset : (m.capacity == "") = false := by simpa using hcapacity
  simp [Filters.passes, Filters.enough, rowFilters, b.toLowerCase_empty, b.number_zero, hset,
    Bool.and_assoc]

/-- A weaker predicate counts more unless all that satisfy it satisfy the stronger one. -/
theorem countP_eq_iff_of_imp {α : Type*} {p q : α → Bool} (h : ∀ x, p x → q x) (l : List α) :
    l.countP q = l.countP p ↔ ∀ x ∈ l, q x → p x := by
  induction l with
  | nil => simp
  | cons x l ih =>
    have hle : l.countP p ≤ l.countP q := List.countP_mono_left (fun y _ => h y)
    rw [List.forall_mem_cons, ← ih, List.countP_cons, List.countP_cons]
    cases hp : p x with
    | true => simp [h x hp]
    | false =>
      cases hq : q x with
      | true =>
        simp only [if_true, Bool.false_eq_true, if_false, imp_false, not_true_eq_false, false_and,
          iff_false]
        omega
      | false => simp

/-- The list that a row of the dashboard opens has as many cards as the row counts idle ones,
exactly when the model of the row has a name or no idle card of this capacity has one. -/
theorem gpusLeft_eq_idle_iff (b : Browser) (nodes : List Node) (m : ModelCount)
    (hm : m ∈ (summarize b nodes).models) :
    gpusLeft b nodes (rowFilters m) = m.idle ↔
      m.name ≠ "" ∨ ∀ n ∈ nodes, ∀ g ∈ n.snapshot.gpus, idle g n → capacityKey g = m.capacity →
        g.name = "" := by
  obtain ⟨-, hidle, hsome⟩ := mem_models hm
  have hcapacity : m.capacity ≠ "" := by
    obtain ⟨c, hc⟩ := List.exists_mem_of_ne_nil _ hsome
    have hc := of_decide_eq_true (List.mem_filter.mp hc).2
    exact hc.2 ▸ capacityKey_ne c.1
  have hcount : m.idle = (cards nodes).countP (fun c =>
      c.1.name == m.name && capacityKey c.1 == m.capacity && idle c.1 c.2) := by
    rw [hidle, cardsOf, List.countP_filter]
    apply List.countP_congr
    intro c _
    simp [gpuState_eq_idle_iff, and_comm]
  rw [gpusLeft_eq b nodes _ rfl rfl, hcount]
  simp only [passes_rowFilters b m hcapacity]
  rw [countP_eq_iff_of_imp (by simp +contextual)]
  by_cases hname : m.name = ""
  · simp only [hname, ne_eq, not_true_eq_false, false_or, cards, List.mem_flatMap, List.mem_map]
    constructor
    · intro h n hn g hg hi hcap
      have := h (g, n) ⟨n, hn, g, hg, rfl⟩ (by simp [hi, hcap])
      simp_all
    · rintro h c ⟨n, hn, g, hg, rfl⟩ hpass
      simp only [beq_self_eq_true, Bool.true_or, Bool.true_and, Bool.and_eq_true, beq_iff_eq] at hpass
      simp [h n hn g hg hpass.2 hpass.1, hpass]
  · simp [hname]

/-- The browser's functions on the texts of the list below. -/
def latin : Browser where
  toLowerCase := String.toLower
  toLowerCase_empty := by decide +kernel
  localeCompare := fun s t => if s = t then 0 else if s < t then -1 else 1
  number := fun s => if s = "0" then some 0 else none
  number_zero := rfl
  text := fun q => toString q

def idleCard (uuid name : String) : GPU where
  uuid := uuid
  name := name
  util := some 0
  memoryUsed := some 0
  memoryTotal := some (24 * gib)

/-- One node whose second card reports no model. -/
def namelessNode : Node where
  id := "n"
  name := "n"
  expected := 2
  snapshot := { gpuStatus := "ok", gpus := [idleCard "GPU-a" "NVIDIA A10", idleCard "GPU-b" ""] }

/-- The row of the named model opens its one idle card. -/
theorem gpusLeft_eq_idle_iff_named :
    gpusLeft latin [namelessNode]
      (rowFilters ⟨stringify ["NVIDIA A10", "24"], "24", "NVIDIA A10", 1, 1⟩) = 1 :=
  (gpusLeft_eq_idle_iff latin [namelessNode] ⟨stringify ["NVIDIA A10", "24"], "24", "NVIDIA A10", 1, 1⟩
    (by decide +kernel)).mpr (.inl (by decide))

/-- The row without a model counts one idle card and opens two. -/
theorem nameless_row_opens_all : ¬ ∀ (b : Browser) (nodes : List Node),
    ∀ m ∈ (summarize b nodes).models, gpusLeft b nodes (rowFilters m) = m.idle := by
  intro h
  have hrow := h latin [namelessNode] ⟨stringify ["", "24"], "24", "", 1, 1⟩ (by decide +kernel)
  exact absurd hrow (by decide +kernel)

end CardScope.Web
