import CardScope.Library.Means
import CardScope.Web.Resources

/-! # The counts of the dashboard

Every card is counted once by state and once in the group of its model and capacity, and the idle
cards are those of the idle filter. The counts do not depend on the order of nodes and cards.
-/

namespace CardScope.Web
open Library

/-- The utilisation of a card that is averaged. -/
def reading (c : Card) : Option ℚ :=
  if c.2.online && c.1.status == "ok" then c.1.util else none

def readings (nodes : List Node) : List ℚ := (cards nodes).filterMap reading

/-- The cards that the header of the pages calls available. -/
def available (nodes : List Node) : ℕ := ((cards nodes).filter (fun c => idle c.1 c.2)).length

/-- The same node with its cards in another order. -/
def SameCards (m n : Node) : Prop :=
  ∃ gpus, m.snapshot.gpus.Perm gpus ∧ n = { m with snapshot := { m.snapshot with gpus := gpus } }

/-- The same nodes with the same cards, each in any order. -/
def Reordered (nodes nodes' : List Node) : Prop :=
  ∃ mid, nodes.Perm mid ∧ List.Forall₂ SameCards mid nodes'

section Counts

variable (b : Browser) (nodes : List Node)

/-! ## What the loops count -/

theorem counts_eq (state : GPUState) : (summarize b nodes).counts state =
    (cards nodes).countP (fun c => gpuState c.1 c.2 = state) := by
  have hloop : ∀ (cs : List Card) (counts : GPUState → ℕ), cs.foldl (fun counts c =>
      Function.update counts (gpuState c.1 c.2) (counts (gpuState c.1 c.2) + 1)) counts state =
        counts state + cs.countP (fun c => gpuState c.1 c.2 = state) := by
    intro cs
    induction cs with
    | nil => exact fun counts => rfl
    | cons c cs ih =>
      intro counts
      rw [List.foldl_cons, ih, List.countP_cons, Function.update_apply]
      by_cases hc : gpuState c.1 c.2 = state
      · subst hc
        simp only [if_true, decide_true]
        omega
      · simp [hc, Ne.symm hc]
  have hcounts := foldl_addNode b Tally.counts (fun counts c =>
    Function.update counts (gpuState c.1 c.2) (counts (gpuState c.1 c.2) + 1))
    (fun _ _ => rfl) (fun _ _ => rfl) nodes {}
  change (nodes.foldl (Tally.addNode b) {}).counts state = _
  rw [hcounts, hloop, zero_add]

theorem detected_eq : (summarize b nodes).detected = (cards nodes).length := by
  have hdetected := foldl_addNode b Tally.detected (fun n _ => n + 1)
    (fun _ _ => rfl) (fun _ _ => rfl) nodes {}
  change (nodes.foldl (Tally.addNode b) {}).detected = _
  rw [hdetected, List.foldl_add_const, one_mul, zero_add]

theorem missing_eq : (summarize b nodes).missing = (nodes.map absent).sum := by
  have hcards : ∀ (cs : List Card) (t : Tally), (cs.foldl (Tally.addGPU b) t).missing = t.missing := by
    intro cs
    induction cs with
    | nil => exact fun t => rfl
    | cons c cs ih => exact fun t => ih _
  have hloop : ∀ (nodes : List Node) (t : Tally),
      (nodes.foldl (Tally.addNode b) t).missing = t.missing + (nodes.map absent).sum := by
    intro nodes
    induction nodes with
    | nil => exact fun t => (add_zero _).symm
    | cons n nodes ih =>
      intro t
      rw [List.foldl_cons, ih, Tally.addNode, hcards, List.map_cons, List.sum_cons, add_assoc]
  exact (hloop nodes {}).trans (zero_add _)

theorem utilSum_eq : (nodes.foldl (Tally.addNode b) {}).utilSum = (readings nodes).sum := by
  have hloop : ∀ (cs : List Card) (sum : ℚ), cs.foldl (fun sum c => sum + (reading c).getD 0) sum =
      sum + (cs.filterMap reading).sum := by
    intro cs
    induction cs with
    | nil => exact fun sum => (add_zero sum).symm
    | cons c cs ih =>
      intro sum
      rw [List.foldl_cons, ih]
      cases hc : reading c with
      | none => rw [List.filterMap_cons_none hc, Option.getD_none, add_zero]
      | some u => rw [List.filterMap_cons_some hc, Option.getD_some, List.sum_cons, add_assoc]
  have hsum := foldl_addNode b Tally.utilSum (fun sum c => sum + (reading c).getD 0)
    (fun _ _ => rfl) (fun _ _ => rfl) nodes {}
  rw [hsum, hloop]
  exact zero_add _

theorem utilCount_eq : (nodes.foldl (Tally.addNode b) {}).utilCount = (readings nodes).length := by
  have hloop : ∀ (cs : List Card) (n : ℕ), cs.foldl (fun n c =>
      if (reading c).isSome then n + 1 else n) n = n + (cs.filterMap reading).length := by
    intro cs
    induction cs with
    | nil => exact fun n => rfl
    | cons c cs ih =>
      intro n
      rw [List.foldl_cons, ih]
      cases hc : reading c with
      | none => rw [List.filterMap_cons_none hc, Option.isSome_none, if_neg Bool.false_ne_true]
      | some u =>
        rw [List.filterMap_cons_some hc, Option.isSome_some, if_pos rfl, List.length_cons]
        omega
  have hcount := foldl_addNode b Tally.utilCount (fun n c => if (reading c).isSome then n + 1 else n)
    (fun _ _ => rfl) (fun _ _ => rfl) nodes {}
  rw [hcount, hloop]
  exact zero_add _

theorem util_eq : (summarize b nodes).util =
    if readings nodes = [] then none else some ((readings nodes).sum / (readings nodes).length) := by
  change (if (nodes.foldl (Tally.addNode b) {}).utilCount ≠ 0 then some
    ((nodes.foldl (Tally.addNode b) {}).utilSum / (nodes.foldl (Tally.addNode b) {}).utilCount)
      else none) = _
  rw [utilSum_eq, utilCount_eq]
  by_cases hnone : readings nodes = []
  · simp [hnone]
  · simp [hnone]

theorem mem_readings {u : ℚ} : u ∈ readings nodes ↔
    ∃ n ∈ nodes, ∃ g ∈ n.snapshot.gpus, n.online = true ∧ g.status = "ok" ∧ g.util = some u := by
  have hreading : ∀ (n : Node) (g : GPU), reading (g, n) = some u ↔
      n.online = true ∧ g.status = "ok" ∧ g.util = some u := by
    intro n g
    unfold reading
    split_ifs with hcounted
    · simp_all
    · simp_all
  simp only [readings, List.mem_filterMap, cards, List.mem_flatMap, List.mem_map]
  constructor
  · rintro ⟨c, ⟨n, hn, g, hg, rfl⟩, hu⟩
    exact ⟨n, hn, g, hg, (hreading n g).mp hu⟩
  · rintro ⟨n, hn, g, hg, hu⟩
    exact ⟨(g, n), ⟨n, hn, g, hg, rfl⟩, (hreading n g).mpr hu⟩

theorem util_between {u : ℚ} (hu : (summarize b nodes).util = some u) :
    ∃ low ∈ readings nodes, ∃ high ∈ readings nodes,
      (∀ x ∈ readings nodes, low ≤ x ∧ x ≤ high) ∧ low ≤ u ∧ u ≤ high := by
  rw [util_eq] at hu
  split_ifs at hu with hnone
  obtain rfl := Option.some_inj.mp hu
  have hlength : ((readings nodes).map (fun _ => (1 : ℚ))).sum = (readings nodes).length := by
    rw [List.map_const', List.sum_replicate, nsmul_one]
  have hpos : 0 < ((readings nodes).map (fun _ => (1 : ℚ))).sum := by
    rw [hlength]
    exact_mod_cast List.length_pos_iff.mpr hnone
  obtain ⟨low, hlow, high, hhigh, -, -, hall, hmean⟩ :=
    weightedMean_between (fun x => x) (fun _ _ => zero_le_one) hpos
  simp only [weightedMean, one_mul, List.map_id', hlength] at hmean
  exact ⟨low, hlow, high, hhigh, fun x hx => hall x hx one_pos, hmean⟩

/-! ## The groups -/

theorem models_perm : (summarize b nodes).models.Perm
    (grouped opened ModelCount.add add_key (cards nodes)).rows := by
  rw [← models_eq b nodes]
  exact (List.perm_insertionSort _ _).trans (List.reverse_perm _)

theorem nodup_model_keys : ((summarize b nodes).models.map ModelCount.key).Nodup :=
  ((models_perm b nodes).map ModelCount.key).nodup_iff.mpr (grouped _ _ _ (cards nodes)).nodup

variable {b nodes}

theorem model_key {m : ModelCount} (h : m ∈ (summarize b nodes).models) :
    m.key = stringify [m.name, m.capacity] := by
  have hof := mem_grouped.mp ((models_perm b nodes).mem_iff.mp h)
  cases hown : (cards nodes).filter (fun c => (opened c).key = m.key) with
  | nil =>
    rw [hown] at hof
    cases hof
  | cons c rest =>
    rw [hown, groupOf, Option.some_inj, foldl_add] at hof
    subst hof
    rfl

theorem exists_model {c : Card} (hc : c ∈ cards nodes) :
    ∃ m ∈ (summarize b nodes).models, m.name = c.1.name ∧ m.capacity = capacityKey c.1 := by
  have hfound : (grouped opened ModelCount.add add_key (cards nodes)).find? (opened c).key = _ :=
    find?_grouped (cards nodes) (opened c).key
  have hown : c ∈ (cards nodes).filter (fun d => (opened d).key = (opened c).key) :=
    List.mem_filter.mpr ⟨hc, decide_eq_true rfl⟩
  cases hgroup : (grouped opened ModelCount.add add_key (cards nodes)).find? (opened c).key with
  | none =>
    rw [hgroup, eq_comm, groupOf_eq_none] at hfound
    rw [hfound] at hown
    cases hown
  | some m =>
    obtain ⟨hm, hkey⟩ := Table.find?_eq_some.mp hgroup
    have hmem := (models_perm b nodes).mem_iff.mpr hm
    rw [model_key hmem, opened, stringify_pair] at hkey
    exact ⟨m, hmem, hkey⟩

theorem countP_models {c : Card} (hc : c ∈ cards nodes) : (summarize b nodes).models.countP
    (fun m => m.name = c.1.name ∧ m.capacity = capacityKey c.1) = 1 := by
  obtain ⟨m, hm, hname, hcapacity⟩ := exists_model (b := b) hc
  have hsame : (summarize b nodes).models.countP
      (fun m => m.name = c.1.name ∧ m.capacity = capacityKey c.1) =
        ((summarize b nodes).models.map ModelCount.key).count m.key := by
    rw [List.count, List.countP_map]
    apply List.countP_congr
    intro l hl
    simp only [decide_eq_true_eq, Function.comp_apply, beq_iff_eq, model_key hl, model_key hm,
      stringify_pair, hname, hcapacity]
  rw [hsame]
  exact List.count_eq_one_of_mem (nodup_model_keys b nodes) (List.mem_map_of_mem hm)

theorem mem_models_iff {m : ModelCount} : m ∈ (summarize b nodes).models ↔
    m.key = stringify [m.name, m.capacity] ∧
      m.total = (cardsOf nodes m.name m.capacity).length ∧
      m.idle = (cardsOf nodes m.name m.capacity).countP (fun c => gpuState c.1 c.2 = .idle) ∧
      cardsOf nodes m.name m.capacity ≠ [] := by
  constructor
  · exact fun h => ⟨model_key h, mem_models h⟩
  · rintro ⟨hkey, htotal, hidle, hsome⟩
    obtain ⟨c, hc⟩ := List.exists_mem_of_ne_nil _ hsome
    obtain ⟨hc, hof⟩ := List.mem_filter.mp hc
    obtain ⟨hname, hcapacity⟩ := of_decide_eq_true hof
    obtain ⟨l, hl, hlname, hlcapacity⟩ := exists_model (b := b) hc
    have hsame : l = m := by
      obtain ⟨hltotal, hlidle, -⟩ := mem_models hl
      have hlkey := model_key hl
      rw [hname] at hlname
      rw [hcapacity] at hlcapacity
      rw [hlname, hlcapacity] at hlkey hltotal hlidle
      cases l
      cases m
      simp_all
    exact hsame ▸ hl

theorem sum_models (f : ModelCount → ℕ) (w : Card → ℕ)
    (hfirst : ∀ c, f (ModelCount.add c (opened c)) = w c)
    (hf : ∀ c m, f (ModelCount.add c m) = f m + w c) :
    ((summarize b nodes).models.map f).sum = ((cards nodes).map w).sum := by
  have hsum : (grouped opened ModelCount.add add_key (cards nodes)).sum (fun m => (f m : ℤ)) =
      ((cards nodes).map (fun c => (w c : ℤ))).sum :=
    sum_grouped (fun m => (f m : ℤ)) (fun c => (w c : ℤ)) (fun c => congrArg Nat.cast (hfirst c))
      (fun c m => by rw [hf, Nat.cast_add]) (cards nodes)
  rw [((models_perm b nodes).map f).sum_eq]
  have hcast : ∀ {α : Type} (l : List α) (v : α → ℕ),
      (((l.map v).sum : ℕ) : ℤ) = (l.map (fun x => (v x : ℤ))).sum := by
    intro α l v
    rw [Nat.cast_list_sum, List.map_map]
    rfl
  apply Int.ofNat_inj.mp
  exact (hcast _ f).trans (hsum.trans (hcast _ w).symm)

theorem sum_totals : ((summarize b nodes).models.map ModelCount.total).sum =
    (summarize b nodes).detected := by
  rw [sum_models ModelCount.total (fun _ => 1) (fun _ => rfl) (fun _ _ => rfl), detected_eq,
    List.map_const', List.sum_replicate, smul_eq_mul, mul_one]

theorem sum_idle : ((summarize b nodes).models.map ModelCount.idle).sum =
    (summarize b nodes).counts .idle := by
  have hsplit : ∀ c m, (ModelCount.add c m).idle =
      m.idle + if gpuState c.1 c.2 = .idle then 1 else 0 := by
    intro c m
    by_cases hc : gpuState c.1 c.2 = .idle <;> simp [ModelCount.add, hc]
  rw [sum_models ModelCount.idle _ (fun c => (hsplit c (opened c)).trans (zero_add _)) hsplit,
    counts_eq]
  induction cards nodes with
  | nil => rfl
  | cons c cs ih =>
    rw [List.map_cons, List.sum_cons, ih, List.countP_cons, add_comm]
    simp only [decide_eq_true_eq]

/-! ## Idle cards -/

theorem counts_idle : (summarize b nodes).counts .idle = available nodes := by
  rw [counts_eq, available, ← List.countP_eq_length_filter]
  apply List.countP_congr
  intro c _
  rw [decide_eq_true_eq, gpuState_eq_idle_iff]

theorem gpusLeft_idle : gpusLeft b nodes { status := "idle" } = available nodes := by
  rw [gpusLeft_eq b nodes _ rfl rfl, available, ← List.countP_eq_length_filter]
  apply List.countP_congr
  intro c _
  simp [Filters.passes, Filters.enough, b.toLowerCase_empty, b.number_zero]

theorem sum_counts : (summarize b nodes).counts .idle + (summarize b nodes).counts .busy +
    (summarize b nodes).counts .attention + (summarize b nodes).counts .unknown +
      (summarize b nodes).counts .offline = (summarize b nodes).detected := by
  simp only [counts_eq, detected_eq]
  induction cards nodes with
  | nil => rfl
  | cons c cs ih =>
    simp only [List.countP_cons, List.length_cons, ← ih]
    cases gpuState c.1 c.2 <;> simp <;> omega

theorem length_cards : (cards nodes).length = (nodes.map (fun n => n.snapshot.gpus.length)).sum := by
  simp [cards, List.length_flatMap]

/-! ## Other orders -/

theorem idle_congr {m n : Node} (h : m.online = n.online) (g : GPU) : idle g m = idle g n := by
  rw [idle, idle, h]

theorem gpuState_congr {m n : Node} (h : m.online = n.online) (g : GPU) :
    gpuState g m = gpuState g n := by
  rw [gpuState, gpuState, h, idle_congr h]

/-- What is counted of cards without their nodes is the same in any order. -/
theorem Reordered.countP_cards {nodes' : List Node} (h : Reordered nodes nodes') {p : Card → Bool}
    (hp : ∀ g m n, m.online = n.online → p (g, m) = p (g, n)) :
    (cards nodes').countP p = (cards nodes).countP p := by
  obtain ⟨mid, hperm, hsame⟩ := h
  have hmid : (cards nodes).Perm (cards mid) := hperm.flatMap_right _
  rw [hmid.countP_eq]
  clear hperm hmid
  induction hsame with
  | nil => rfl
  | @cons m n mid nodes' hmn _ ih =>
    obtain ⟨gpus, hgpus, rfl⟩ := hmn
    rw [cards_cons, cards_cons, List.countP_append, List.countP_append, ih, List.countP_map,
      List.countP_map]
    change gpus.countP _ + _ = _
    rw [hgpus.symm.countP_eq]
    congr 1
    apply List.countP_congr
    intro g _
    rw [Function.comp_apply, Function.comp_apply, hp]
    rfl

theorem Reordered.missing {nodes' : List Node} (h : Reordered nodes nodes') :
    (nodes'.map absent).sum = (nodes.map absent).sum := by
  obtain ⟨mid, hperm, hsame⟩ := h
  rw [(hperm.map absent).sum_eq]
  clear hperm
  induction hsame with
  | nil => rfl
  | @cons m n mid nodes' hmn _ ih =>
    obtain ⟨gpus, hgpus, rfl⟩ := hmn
    rw [List.map_cons, List.map_cons, List.sum_cons, List.sum_cons, ih]
    congr 1
    simp only [absent, hgpus.length_eq]

theorem Reordered.countP_cardsOf {nodes' : List Node} (h : Reordered nodes nodes') {p : Card → Bool}
    (hp : ∀ g m n, m.online = n.online → p (g, m) = p (g, n)) (name capacity : String) :
    (cardsOf nodes' name capacity).countP p = (cardsOf nodes name capacity).countP p := by
  rw [cardsOf, cardsOf, List.countP_filter, List.countP_filter]
  apply h.countP_cards
  intro g m n hmn
  rw [hp g m n hmn]

theorem Reordered.models {nodes' : List Node} (h : Reordered nodes nodes') :
    (summarize b nodes').models.Perm (summarize b nodes).models := by
  apply (List.perm_ext_iff_of_nodup (List.Nodup.of_map _ (nodup_model_keys b nodes'))
    (List.Nodup.of_map _ (nodup_model_keys b nodes))).mpr
  intro m
  have hlength : (cardsOf nodes' m.name m.capacity).length =
      (cardsOf nodes m.name m.capacity).length := by
    have hall := h.countP_cardsOf (p := fun _ => true) (fun _ _ _ _ => rfl) m.name m.capacity
    rwa [List.countP_true] at hall
  have hidle := h.countP_cardsOf (p := fun c => gpuState c.1 c.2 = .idle)
    (fun g m n hmn => by simp only [gpuState_congr hmn]) m.name m.capacity
  rw [mem_models_iff, mem_models_iff, hlength, hidle, ← List.length_pos_iff, hlength,
    List.length_pos_iff]

end Counts

/-- The dashboard's counts agree with each other and with the cards, whatever the order of nodes and
cards. -/
theorem summary_consistent (b : Browser) (nodes : List Node) :
    ((summarize b nodes).counts .idle + (summarize b nodes).counts .busy +
      (summarize b nodes).counts .attention + (summarize b nodes).counts .unknown +
        (summarize b nodes).counts .offline = (summarize b nodes).detected ∧
      (summarize b nodes).detected = (nodes.map (fun n => n.snapshot.gpus.length)).sum) ∧
    (((summarize b nodes).models.map ModelCount.total).sum = (summarize b nodes).detected ∧
      ((summarize b nodes).models.map ModelCount.idle).sum = (summarize b nodes).counts .idle ∧
      (∀ m ∈ (summarize b nodes).models,
        m.total = (cardsOf nodes m.name m.capacity).length ∧
          m.idle = (cardsOf nodes m.name m.capacity).countP (fun c => gpuState c.1 c.2 = .idle)) ∧
      ∀ n ∈ nodes, ∀ g ∈ n.snapshot.gpus, (summarize b nodes).models.countP
        (fun m => m.name = g.name ∧ m.capacity = capacityKey g) = 1) ∧
    ((summarize b nodes).counts .idle = available nodes ∧
      (summarize b nodes).counts .idle = gpusLeft b nodes { status := "idle" }) ∧
    (((summarize b nodes).util = none ↔ ∀ n ∈ nodes, n.online = true → ∀ g ∈ n.snapshot.gpus,
        g.status = "ok" → g.util = none) ∧
      ∀ u, (summarize b nodes).util = some u → ∃ low ∈ readings nodes, ∃ high ∈ readings nodes,
        (∀ x ∈ readings nodes, low ≤ x ∧ x ≤ high) ∧ low ≤ u ∧ u ≤ high) ∧
    ∀ nodes', Reordered nodes nodes' →
      (summarize b nodes').counts = (summarize b nodes).counts ∧
      (summarize b nodes').detected = (summarize b nodes).detected ∧
      (summarize b nodes').missing = (summarize b nodes).missing ∧
      (summarize b nodes').models.Perm (summarize b nodes).models := by
  have hgroup : ∀ n ∈ nodes, ∀ g ∈ n.snapshot.gpus, (g, n) ∈ cards nodes := fun n hn g hg =>
    List.mem_flatMap.mpr ⟨n, hn, List.mem_map_of_mem hg⟩
  refine ⟨⟨sum_counts, (detected_eq b nodes).trans length_cards⟩,
    ⟨sum_totals, sum_idle, fun m hm => ?_, fun n hn g hg => countP_models (hgroup n hn g hg)⟩,
    ⟨counts_idle, counts_idle.trans gpusLeft_idle.symm⟩, ⟨?_, fun u => util_between b nodes⟩, ?_⟩
  · obtain ⟨htotal, hidle, -⟩ := mem_models hm
    exact ⟨htotal, hidle⟩
  · rw [util_eq]
    constructor
    · intro hnone n hn honline g hg hok
      by_contra hsome
      obtain ⟨u, hu⟩ := Option.ne_none_iff_exists'.mp hsome
      have hmem := (mem_readings nodes).mpr ⟨n, hn, g, hg, honline, hok, hu⟩
      split_ifs at hnone with hempty
      rw [hempty] at hmem
      cases hmem
    · intro hall
      rw [if_pos]
      apply List.eq_nil_iff_forall_not_mem.mpr
      intro u hu
      obtain ⟨n, hn, g, hg, honline, hok, hread⟩ := (mem_readings nodes).mp hu
      rw [hall n hn honline g hg hok] at hread
      cases hread
  · intro nodes' h
    refine ⟨?_, ?_, ?_, h.models⟩
    · ext state
      rw [counts_eq, counts_eq]
      exact h.countP_cards (fun g m n hmn => by simp only [gpuState_congr hmn])
    · have hall := h.countP_cards (p := fun _ => true) (fun _ _ _ _ => rfl)
      rwa [List.countP_true, ← detected_eq b, ← detected_eq b] at hall
    · rw [missing_eq, missing_eq]
      exact h.missing

end CardScope.Web
