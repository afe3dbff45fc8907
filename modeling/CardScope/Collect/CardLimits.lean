import CardScope.Collect.Collector
import CardScope.Hub.Validation

/-! # Cards within the limits of the hub

What the collector reports of a card passes the checks of the hub, as far as the single values do
and the list of processes is not too long. The library bounds that list, the command does not.
-/

namespace CardScope.Collect
open Library Model Hub

/-! ## The checks of a card -/

/-- All limits of a card but that on the number of its processes. -/
structure Fine (g : GPU) : Prop where
  uuid_ne : g.uuid ≠ ""
  uuid_len : len g.uuid ≤ 128
  name_len : len g.name ≤ 200
  fields_len : g.fields.rows.length ≤ 64
  fields : ∀ kv ∈ g.fields.rows, len kv.1 ≤ 64 ∧ len kv.2 ≤ 512
  metrics : invalidMetrics g = false
  processes : ∀ p ∈ g.processes, invalidProcess p = false

theorem Fine.validateGPU_iff {g : GPU} (h : Fine g) (seen : List String) :
    validateGPU seen g = .ok () ↔ g.uuid ∉ seen ∧ g.processes.length ≤ 4096 := by
  have hfields : g.fields.rows.any (fun field => len field.1 > 64 || len field.2 > 512) = false := by
    rw [List.any_eq_false]
    intro kv hkv
    have hkv := h.fields kv hkv
    simp only [Bool.or_eq_true, decide_eq_true_eq]
    omega
  have hprocesses : g.processes.any invalidProcess = false := by
    rw [List.any_eq_false]
    intro p hp
    rw [h.processes p hp]
    exact Bool.false_ne_true
  have huuid : (g.uuid == "") = false := by simpa using h.uuid_ne
  have hlimits := h.uuid_len
  have hname := h.name_len
  have hcount := h.fields_len
  unfold validateGPU
  rw [hfields, h.metrics, hprocesses, huuid]
  simp only [Bool.false_or, Bool.false_eq_true, if_false, Bool.or_eq_true, decide_eq_true_eq]
  by_cases hseen : g.uuid ∈ seen
  · simp [hseen]
  · by_cases hmany : g.processes.length ≤ 4096
    · rw [if_neg (by simp only [hseen, or_false]; omega)]
      exact iff_of_true rfl ⟨hseen, hmany⟩
    · rw [if_pos (by omega)]
      exact iff_of_false (fun hok => by cases hok) (fun hok => hmany hok.2)

theorem validateGPUs_iff {gpus : List GPU} (h : ∀ g ∈ gpus, Fine g) (seen : List String) :
    validateGPUs seen gpus = .ok () ↔ (gpus.map GPU.uuid).Nodup ∧ (∀ g ∈ gpus, g.uuid ∉ seen) ∧
      ∀ g ∈ gpus, g.processes.length ≤ 4096 := by
  induction gpus generalizing seen with
  | nil => simp [validateGPUs]
  | cons g rest ih =>
    have hg := (h g List.mem_cons_self).validateGPU_iff seen
    have hrest := ih (fun g' hg' => h g' (List.mem_cons_of_mem _ hg')) (g.uuid :: seen)
    have hsplit : validateGPUs seen (g :: rest) = .ok () ↔
        validateGPU seen g = .ok () ∧ validateGPUs (g.uuid :: seen) rest = .ok () := by
      rw [validateGPUs]
      cases validateGPU seen g with
      | error e => simp [bind, Except.bind]
      | ok _ => simp [bind, Except.bind]
    rw [hsplit, hg, hrest]
    simp only [List.map_cons, List.nodup_cons, List.mem_map, not_exists, not_and, List.mem_cons,
      not_or, forall_eq_or_imp]
    constructor
    · rintro ⟨⟨hseen, hfew⟩, hnodup, hfresh, hall⟩
      exact ⟨⟨fun g' hg' => (hfresh g' hg').1, hnodup⟩, ⟨hseen, fun g' hg' => (hfresh g' hg').2⟩,
        hfew, hall⟩
    · rintro ⟨⟨hfresh, hnodup⟩, ⟨hseen, hunseen⟩, hfew, hall⟩
      exact ⟨⟨hseen, hfew⟩, hnodup, fun g' hg' => ⟨hfresh g' hg', hunseen g' hg'⟩, hall⟩

/-! ## Fields -/

def FieldsFit (n : ℕ) (fields : StringMap) : Prop :=
  fields.rows.length ≤ n ∧ ∀ kv ∈ fields.rows, len kv.1 ≤ 64 ∧ len kv.2 ≤ 512

theorem fieldsFit_empty : FieldsFit 0 Table.empty :=
  ⟨le_rfl, fun _ hkv => absurd hkv List.not_mem_nil⟩

theorem FieldsFit.set {n : ℕ} {fields : StringMap} {k v : String} (h : FieldsFit n fields)
    (hk : len k ≤ 64) (hv : len v ≤ 512) : FieldsFit (n + 1) (fields.set k v) := by
  constructor
  · have hkeep : (fields.rows.filter (fun kv => kv.1 ≠ k)).length ≤ fields.rows.length :=
      List.length_filter_le _ _
    exact Nat.succ_le_succ (hkeep.trans h.1)
  · intro kv hkv
    rcases Table.mem_put.mp hkv with rfl | hkv
    · exact ⟨hk, hv⟩
    · exact h.2 kv hkv.1

theorem FieldsFit.assign {n : ℕ} {fields : StringMap} {pairs : List (String × String)}
    (h : FieldsFit n fields) (hpairs : ∀ kv ∈ pairs, len kv.1 ≤ 64 ∧ len kv.2 ≤ 512) :
    FieldsFit (n + pairs.length) (assign fields pairs) := by
  induction pairs generalizing n fields with
  | nil => exact h
  | cons kv pairs ih =>
    have hkv := hpairs kv List.mem_cons_self
    have hrest := ih (h.set hkv.1 hkv.2) (fun kv' hkv' => hpairs kv' (List.mem_cons_of_mem _ hkv'))
    rw [List.length_cons, ← Nat.add_assoc, Nat.add_right_comm]
    exact hrest

theorem FieldsFit.mono {n m : ℕ} {fields : StringMap} (h : FieldsFit n fields) (hnm : n ≤ m) :
    FieldsFit m fields :=
  ⟨h.1.trans hnm, h.2⟩

/-! ## Numbers as texts -/

theorem len_digits {l : List Char} (h : ∀ c ∈ l, c.isDigit = true) :
    len (String.ofList l) = l.length := by
  induction l with
  | nil => rfl
  | cons c l ih =>
    have hc : c.utf8Size = 1 := by
      have hdigit := h c List.mem_cons_self
      simp only [Char.isDigit, Bool.and_eq_true, decide_eq_true_eq] at hdigit
      exact Char.utf8Size_eq_one_iff.mpr (UInt32.le_trans hdigit.2 (by decide))
    have hrest : (String.ofList l).utf8ByteSize = l.length :=
      ih (fun c' hc' => h c' (List.mem_cons_of_mem _ hc'))
    rw [String.ofList_cons, len, String.utf8ByteSize_append, hrest, List.length_cons]
    simp [hc, Nat.add_comm]

theorem len_toString_nat {n e : ℕ} (he : 0 < e) (hn : n < 10 ^ e) : len (toString n) ≤ e := by
  have hdigits : toString n = String.ofList (Nat.toDigits 10 n) := Nat.repr_eq_ofList_toDigits
  rw [hdigits, len_digits (fun c hc => Nat.isDigit_of_mem_toDigits (by decide) (by decide) hc)]
  exact Nat.toDigits_length 10 n e he hn

theorem len_toString_int {n : ℤ} {e : ℕ} (he : 0 < e) (hn : n.natAbs < 10 ^ e) :
    len (toString n) ≤ e + 1 := by
  cases n with
  | ofNat n => exact (len_toString_nat he hn).trans (Nat.le_succ e)
  | negSucc n =>
    have hminus : toString (Int.negSucc n) = "-" ++ toString (n + 1) := rfl
    rw [hminus, len, String.utf8ByteSize_append]
    have htail := len_toString_nat (n := n + 1) he hn
    have hsign : "-".utf8ByteSize = 1 := rfl
    rw [len] at htail
    omega

theorem len_nvStatus (rc : Int32) : len (nvStatus rc) ≤ 512 := by
  unfold nvStatus
  split_ifs
  · decide
  · decide
  · decide
  · decide
  · decide
  · have hlow := Int32.le_toInt rc
    have hhigh := Int32.toInt_lt rc
    have hdigits := len_toString_int (n := rc.toInt) (e := 10) (by decide) (by omega)
    have hword : "nvml_error_".utf8ByteSize = 11 := rfl
    rw [len, String.utf8ByteSize_append, hword]
    rw [len] at hdigits
    omega

/-! ## Values that are read -/

structure NvmlCard.Sized (n : NvmlCard) : Prop where
  name : len n.name ≤ 200
  util : n.util.value.toNat ≤ 100
  memory : n.memory.value.1.toNat ≤ 10 ^ 15 ∧ n.memory.value.2.toNat ≤ 10 ^ 15
  temperature : n.temperature.value.toNat ≤ 250
  power : n.power.value.toNat ≤ 10 ^ 8
  processes : ∀ r ∈ n.processes, ∀ p ∈ r.value,
    0 < p.1.toInt32.toInt ∧ (p.2 = 2 ^ 64 - 1 ∨ p.2.toNat ≤ 10 ^ 15)

structure MetricsSized (parseFloat : String → Option ℚ)
    (name util memoryUsed memoryTotal temperature power : String) : Prop where
  name : len (trimSpace name) ≤ 200
  util : ∀ v ∈ parsed parseFloat util 1, v ≤ 100
  memoryUsed : ∀ v ∈ parsed parseFloat memoryUsed 1048576, v ≤ 10 ^ 15
  memoryTotal : ∀ v ∈ parsed parseFloat memoryTotal 1048576, v ≤ 10 ^ 15
  temperature : ∀ v ∈ parsed parseFloat temperature 1, v ≤ 250
  power : ∀ v ∈ parsed parseFloat power 1, v ≤ 10 ^ 5

/-- The values that are read of a card are within the limits of the hub. -/
structure CardReadings.Sized (r : CardReadings) : Prop where
  error : ∀ e, r.nvml = .error e → len e ≤ 512
  library : ∀ n, r.nvml = .ok n → n.Sized
  metrics : ∀ name util memoryUsed memoryTotal temperature power pci,
    r.metrics = some [[name, util, memoryUsed, memoryTotal, temperature, power, pci]] →
      MetricsSized r.parseFloat name util memoryUsed memoryTotal temperature power
  apps : ∀ rows ∈ r.apps, ∀ row ∈ rows, ∀ p ∈ smiProcess r.parseFloat row,
    0 < p.pid ∧ len p.name ≤ 256 ∧ ∀ m ∈ p.memory, m ≤ 10 ^ 15

/-- The processes that the command lists for a card, when the library fails. -/
def commandProcesses (r : CardReadings) : List Process :=
  match nvGPU "" r.nvml, r.metrics, r.apps with
  | .error _, some [[_, _, _, _, _, _, _]], some rows =>
    rows.filterMap (smiProcess r.parseFloat)
  | _, _, _ => []

section Card

variable {uuid e : String} {n : NvmlCard} {r : CardReadings} {p : Process} {g : GPU}
  {parseFloat : String → Option ℚ}

theorem check_of_le {v : Option ℚ} {max : ℚ} (hnonneg : ∀ x ∈ v, 0 ≤ x) (hle : ∀ x ∈ v, x ≤ max) :
    check v max = true := by
  cases v with
  | none => rfl
  | some x => simp [check, hnonneg x rfl, hle x rfl]

theorem parsed_nonneg {v : String} {scale : ℚ} (hscale : 0 ≤ scale) :
    ∀ x ∈ parsed parseFloat v scale, 0 ≤ x := by
  intro x hx
  obtain ⟨y, hy, rfl⟩ := Option.map_eq_some_iff.mp hx
  have hpos : 0 ≤ y := by simpa using (Option.filter_eq_some_iff.mp hy).2
  exact mul_nonneg hpos hscale

theorem metric_bound {α : Type} {q : Reply α} {f : α → ℚ} {max : ℚ} (hnonneg : 0 ≤ f q.value)
    (hle : f q.value ≤ max) : check (q.metric f) max = true := by
  unfold Reply.metric
  split_ifs
  · simp [check, hnonneg, hle]
  · rfl

/-- A process as the queries of a card give it. -/
def Listed (p : Process) : Prop := 0 < p.pid ∧ len p.name ≤ 256 ∧ p.uid = "" ∧ p.user = "" ∧
  check p.memory (10 ^ 15) = true

theorem listed_nvProcess {q : UInt32 × UInt64} (hpid : 0 < q.1.toInt32.toInt)
    (hmemory : q.2 = 2 ^ 64 - 1 ∨ q.2.toNat ≤ 10 ^ 15) : Listed (nvProcess q) := by
  have hname : len "" ≤ 256 := by decide
  refine ⟨hpid, hname, rfl, rfl, ?_⟩
  simp only [nvProcess]
  split_ifs with hnone
  · rfl
  · have hle := hmemory.resolve_left hnone
    have hcast : (q.2.toNat : ℚ) ≤ 10 ^ 15 := by exact_mod_cast hle
    simp [check, hcast]

theorem smiProcess_spec {row : List String} (hp : p ∈ smiProcess parseFloat row) :
    p.uid = "" ∧ p.user = "" ∧ ∀ m ∈ p.memory, 0 ≤ m := by
  unfold smiProcess at hp
  split at hp
  next pid memory name =>
    obtain ⟨pid, -, hp⟩ := Option.map_eq_some_iff.mp hp
    have hmemory : p.memory = parsed parseFloat memory 1048576 := by rw [← hp]
    have huid : p.uid = "" ∧ p.user = "" := by rw [← hp]; exact ⟨rfl, rfl⟩
    refine ⟨huid.1, huid.2, ?_⟩
    rw [hmemory]
    exact parsed_nonneg (by norm_num)
  next => cases hp

theorem listed_smiProcess {row : List String} (hp : p ∈ smiProcess parseFloat row)
    (h : 0 < p.pid ∧ len p.name ≤ 256 ∧ ∀ m ∈ p.memory, m ≤ 10 ^ 15) : Listed p := by
  obtain ⟨huid, huser, hnonneg⟩ := smiProcess_spec hp
  exact ⟨h.1, h.2.1, huid, huser, check_of_le hnonneg h.2.2⟩

theorem nvFields_fit (n : NvmlCard) : FieldsFit 7 (assign Table.empty (nvFields n)) := by
  have hlength : (nvFields n).length ≤ 7 := by
    unfold nvFields
    cases n.ecc with
    | none => split_ifs <;> simp
    | some r =>
      simp only
      split_ifs <;> simp
  refine (fieldsFit_empty.assign (fun kv hkv => ?_)).mono (by rwa [Nat.zero_add])
  have hstatus : ∀ (k : String) (rc : Int32), len k ≤ 64 →
      len (k, nvStatus rc).1 ≤ 64 ∧ len (k, nvStatus rc).2 ≤ 512 := fun _ rc hk => ⟨hk, len_nvStatus rc⟩
  simp only [nvFields, List.mem_append, List.mem_cons, List.not_mem_nil, or_false] at hkv
  rcases hkv with ((rfl | rfl | rfl | rfl) | hkv) | hkv
  · exact hstatus _ _ (by decide)
  · exact hstatus _ _ (by decide)
  · exact hstatus _ _ (by decide)
  · exact hstatus _ _ (by decide)
  · cases hecc : n.ecc with
    | none => simp [hecc] at hkv
    | some r =>
      simp only [hecc, List.mem_cons, List.mem_ite_nil_right] at hkv
      rcases hkv with rfl | ⟨-, rfl | hkv⟩
      · exact hstatus _ _ (by decide)
      · exact ⟨by decide, by decide⟩
      · exact absurd hkv List.not_mem_nil
  · split_ifs at hkv
    · rw [List.mem_singleton.mp hkv]
      exact ⟨by decide, by decide⟩
    · exact absurd hkv List.not_mem_nil

structure Plain (uuid : String) (g : GPU) : Prop where
  uuid_eq : g.uuid = uuid
  name_len : len g.name ≤ 200
  fields : FieldsFit 7 g.fields
  metrics : invalidMetrics g = false
  processes : ∀ p ∈ g.processes, Listed p

theorem listed_nvProcesses (hn : n.Sized) : ∀ p ∈ nvProcesses n, Listed p := by
  intro p hp
  unfold nvProcesses at hp
  cases hr : n.processes with
  | none => simp [hr] at hp
  | some r =>
    simp only [hr] at hp
    split_ifs at hp
    · obtain ⟨q, hq, rfl⟩ := List.mem_map.mp hp
      obtain ⟨hpid, hmemory⟩ := hn.processes r hr q hq
      exact listed_nvProcess hpid hmemory
    · exact absurd hp List.not_mem_nil

theorem length_nvProcesses (n : NvmlCard) : (nvProcesses n).length ≤ 4096 := by
  unfold nvProcesses
  cases n.processes with
  | none => simp
  | some r =>
    simp only
    split_ifs with h
    · rw [List.length_map]
      exact h.2
    · simp

theorem metric_nat {α : Type} {q : Reply α} {f : α → ℕ} {n : ℕ} {max : ℚ} (hle : f q.value ≤ n)
    (hmax : (n : ℚ) = max) : check (q.metric (fun v => (f v : ℚ))) max = true :=
  metric_bound (Nat.cast_nonneg _) (hmax ▸ Nat.cast_le.mpr hle)

theorem nvGPU_ok (hn : n.Sized) (h : nvGPU uuid (.ok n) = .ok g) :
    Plain uuid g ∧ g.processes.length ≤ 4096 := by
  unfold nvGPU at h
  simp only [bind, Except.bind] at h
  cases hlookup : n.lookup with
  | none => simp [hlookup] at h
  | some rc =>
    simp only [hlookup] at h
    by_cases hrc : rc ≠ 0
    · rw [if_pos hrc] at h
      cases h
    rw [if_neg hrc, Except.ok.injEq] at h
    subst h
    refine ⟨⟨rfl, hn.name, nvFields_fit n, ?_, listed_nvProcesses hn⟩, length_nvProcesses n⟩
    have hpower : check (n.power.metric (fun v => (v.toNat : ℚ) / 1000)) (10 ^ 5) = true := by
      apply metric_bound (by positivity)
      have hcast : (n.power.value.toNat : ℚ) ≤ 10 ^ 8 := by exact_mod_cast hn.power
      linarith
    have hutil : check (n.util.metric (fun v => (v.toNat : ℚ))) 100 = true :=
      metric_nat hn.util (by norm_num)
    have hused : check (n.memory.metric (fun v => (v.2.toNat : ℚ))) (10 ^ 15) = true :=
      metric_nat hn.memory.2 (by norm_num)
    have htotal : check (n.memory.metric (fun v => (v.1.toNat : ℚ))) (10 ^ 15) = true :=
      metric_nat hn.memory.1 (by norm_num)
    have htemperature : check (n.temperature.metric (fun v => (v.toNat : ℚ))) 250 = true :=
      metric_nat hn.temperature (by norm_num)
    simp only [invalidMetrics, hutil, hused, htotal, htemperature, hpower, Bool.not_true,
      Bool.or_false]

theorem nvGPU_error_iff (uuid uuid' : String) (lib : Except String NvmlCard) (e : String) :
    nvGPU uuid lib = .error e ↔ nvGPU uuid' lib = .error e := by
  cases lib with
  | error e' => exact Iff.rfl
  | ok n =>
    unfold nvGPU
    simp only [bind, Except.bind]
    cases n.lookup with
    | none => exact Iff.rfl
    | some rc =>
      simp only
      split_ifs
      · exact Iff.rfl
      · simp

theorem len_error {lib : Except String NvmlCard} (h : nvGPU uuid lib = .error e)
    (hlib : ∀ e', lib = .error e' → len e' ≤ 512) : len e ≤ 512 := by
  cases lib with
  | error e' =>
    cases h
    exact hlib _ rfl
  | ok n =>
    unfold nvGPU at h
    simp only [bind, Except.bind] at h
    cases hlookup : n.lookup with
    | none =>
      simp only [hlookup, Except.error.injEq] at h
      subst h
      decide
    | some rc =>
      simp only [hlookup] at h
      by_cases hrc : rc ≠ 0
      · rw [if_pos hrc, Except.error.injEq] at h
        exact h ▸ len_nvStatus rc
      · rw [if_neg hrc] at h
        cases h

theorem smiFields_fit (util memory temperature power : Option ℚ) :
    ∀ kv ∈ smiFields util memory temperature power, len kv.1 ≤ 64 ∧ len kv.2 ≤ 512 := by
  have hmark : ∀ (k : String) (v : Option ℚ), len k ≤ 64 →
      len k ≤ 64 ∧ len (if v.isSome then "ok" else "unsupported") ≤ 512 := by
    refine fun k v hk => ⟨hk, ?_⟩
    split_ifs <;> decide
  intro kv hkv
  simp only [smiFields, List.mem_cons, List.not_mem_nil, or_false] at hkv
  rcases hkv with rfl | rfl | rfl | rfl
  · exact hmark "util" _ (by decide)
  · exact hmark "memory" _ (by decide)
  · exact hmark "temperature" _ (by decide)
  · exact hmark "power" _ (by decide)

theorem plain_failedGPU (he : len e ≤ 512) :
    Plain uuid (failedGPU uuid e) ∧ FieldsFit 1 (failedGPU uuid e).fields := by
  have hkey : len "nvml" ≤ 64 := by decide
  have hname : len "" ≤ 200 := by decide
  have hfields : FieldsFit 1 (failedGPU uuid e).fields :=
    fieldsFit_empty.assign (fun kv hkv => by
      rw [List.mem_singleton.mp hkv]
      exact ⟨hkey, he⟩)
  exact ⟨⟨rfl, hname, hfields.mono (by decide), rfl, fun p hp => absurd hp List.not_mem_nil⟩, hfields⟩

theorem plain_measuredGPU {name util memoryUsed memoryTotal temperature power : String}
    (h : MetricsSized parseFloat name util memoryUsed memoryTotal temperature power) (pci : String)
    (hg : Plain uuid g) (hfields : FieldsFit 1 g.fields) :
    Plain uuid (measuredGPU parseFloat g name util memoryUsed memoryTotal temperature power pci) := by
  have hone : (0 : ℚ) ≤ 1 := by norm_num
  have hmega : (0 : ℚ) ≤ 1048576 := by norm_num
  have hlength : FieldsFit 5 (measuredGPU parseFloat g name util memoryUsed memoryTotal temperature
      power pci).fields := hfields.assign (smiFields_fit _ _ _ _)
  refine ⟨hg.uuid_eq, h.name, hlength.mono (by decide), ?_, hg.processes⟩
  simp only [invalidMetrics, measuredGPU]
  rw [check_of_le (parsed_nonneg hone) h.util, check_of_le (parsed_nonneg hmega) h.memoryUsed,
    check_of_le (parsed_nonneg hmega) h.memoryTotal,
    check_of_le (parsed_nonneg hone) h.temperature, check_of_le (parsed_nonneg hone) h.power]
  rfl

theorem plain_listedGPU {rows : List (List String)} (hg : Plain uuid g)
    (h : ∀ row ∈ rows, ∀ p ∈ smiProcess parseFloat row,
      0 < p.pid ∧ len p.name ≤ 256 ∧ ∀ m ∈ p.memory, m ≤ 10 ^ 15) :
    Plain uuid (listedGPU parseFloat g rows) := by
  refine ⟨hg.uuid_eq, hg.name_len, hg.fields, hg.metrics, fun p hp => ?_⟩
  obtain ⟨row, hrow, hp⟩ := List.mem_filterMap.mp hp
  exact listed_smiProcess hp (h row hrow p hp)

theorem plain_gpu (hr : r.Sized) : Plain uuid (gpu uuid r) ∧
    ((gpu uuid r).processes.length ≤ 4096 ↔ (commandProcesses r).length ≤ 4096) := by
  cases hlib : nvGPU uuid r.nvml with
  | ok g =>
    obtain ⟨n, hn⟩ : ∃ n, r.nvml = .ok n := by
      cases hnvml : r.nvml with
      | ok n => exact ⟨n, rfl⟩
      | error e =>
        rw [hnvml] at hlib
        cases hlib
    have hgpu : gpu uuid r = g := by rw [gpu, hlib]
    have hnone : commandProcesses r = [] := by
      unfold commandProcesses
      cases hempty : nvGPU "" r.nvml with
      | ok g' => rfl
      | error e =>
        rw [(nvGPU_error_iff uuid "" r.nvml e).mpr hempty] at hlib
        cases hlib
    rw [hn] at hlib
    obtain ⟨hplain, hfew⟩ := nvGPU_ok (hr.library n hn) hlib
    rw [hgpu, hnone]
    exact ⟨hplain, iff_of_true hfew (Nat.zero_le _)⟩
  | error e =>
    have hempty := (nvGPU_error_iff uuid "" r.nvml e).mp hlib
    obtain ⟨hfailed, hfields⟩ : Plain uuid (failedGPU uuid e) ∧ FieldsFit 1 (failedGPU uuid e).fields :=
      plain_failedGPU (len_error hlib hr.error)
    unfold commandProcesses
    rw [gpu, hlib, hempty]
    simp only
    split
    next name util memoryUsed memoryTotal temperature power pci hmetrics =>
      have hplain := plain_measuredGPU (hr.metrics _ _ _ _ _ _ _ hmetrics) pci hfailed hfields
      rw [hmetrics]
      cases happs : r.apps with
      | none => exact ⟨hplain, Iff.rfl⟩
      | some rows => exact ⟨plain_listedGPU hplain (hr.apps rows happs), Iff.rfl⟩
    next hmetrics =>
      refine ⟨hfailed, iff_of_true (Nat.zero_le _) ?_⟩
      split
      next hrow _ => exact (hmetrics _ _ _ _ _ _ _ hrow).elim
      next => exact Nat.zero_le _

end Card

end CardScope.Collect
