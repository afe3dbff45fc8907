import CardScope.Agent.System
import CardScope.Collect.CardLimits

/-! # Snapshots within the limits of the hub

The hub refuses a snapshot with more than 256 interfaces or block devices, or a card with more than
4096 processes. The collector bounds mounts and cards, not these lists.
-/

namespace CardScope.Collect
open Library Model Hub

/-! ## What is read -/

structure ProcessInfo.Sized (info : ProcessInfo) : Prop where
  username : ∀ u ∈ info.username, len u ≤ 256
  name : ∀ n ∈ info.name, len n ≤ 256

structure CardsSized (cards : List GPU) : Prop where
  few : cards.length ≤ 128
  distinct : (cards.map GPU.uuid).Nodup
  card : ∀ g ∈ cards, g.uuid ≠ "" ∧ len g.uuid ≤ 128 ∧ len g.name ≤ 200

/-- Each value that a round reads is within the limits of the hub. -/
structure Host.Sized (h : Host) : Prop where
  hostname : len h.hostname ≤ 200
  cpu : ∀ loads ∈ h.cpu, ∀ v ∈ loads, 0 ≤ v ∧ v ≤ 100
  load : ∀ v ∈ h.load, 0 ≤ v ∧ v ≤ 1000000
  memory : ∀ m ∈ h.memory, m.2 ≤ m.1
  counters : ∀ n ∈ h.counters, len n.name ≤ 128
  devices : ∀ d ∈ h.devices, len d.name ≤ 256
  partitions : ∀ p ∈ h.partitions, len p.mountpoint ≤ 2048 ∧ len p.device ≤ 512
  disk : ∀ p total free, h.disk p = .done (.ok total free) → free ≤ total
  inventory : ∀ r ∈ h.inventory, ∀ cards ∈ Collect.inventory r.1 r.2, CardsSized cards
  cards : ∀ i r, h.card i = .done r → r.Sized
  processes : ∀ i j, ∀ info ∈ h.process i j, info.Sized

/-! ## Cards -/

section Cards

variable {c : Collector} {h : Host} {i : ℕ} {g : GPU} {p : Process}

def Bare (g : GPU) : Prop :=
  g = { uuid := g.uuid, name := g.name, index := g.index, pci := g.pci }

theorem bare_inventory {devices : Option (List (Option (String × String)))} {rows : Rows}
    {cards : List GPU} (hcards : cards ∈ inventory devices rows) : ∀ g ∈ cards, Bare g := by
  have hlibrary : ∀ found ∈ nvInventory devices, ∀ g ∈ found, Bare g := by
    intro found hfound g hg
    unfold nvInventory at hfound
    cases devices with
    | none => cases hfound
    | some devices =>
      simp only at hfound
      split_ifs at hfound
      · cases hfound
      · cases hfound
        obtain ⟨d, -, hd⟩ := List.mem_filterMap.mp hg
        split at hd
        · cases hd
        · split_ifs at hd
          cases hd
          rfl
  have hcommand : ∀ found ∈ rows.map (fun rows => rows.filterMap smiCard), ∀ g ∈ found, Bare g := by
    intro found hfound g hg
    obtain ⟨rows', -, rfl⟩ := Option.map_eq_some_iff.mp hfound
    obtain ⟨row, -, hrow⟩ := List.mem_filterMap.mp hg
    unfold smiCard at hrow
    split at hrow
    · cases hrow
      rfl
    · cases hrow
  unfold inventory at hcards
  split at hcards
  next hfound => exact hlibrary cards (by rw [hfound]; exact hcards)
  next => exact hcommand cards hcards

theorem plain_queried (hh : h.Sized) (hbare : Bare g) (hname : len g.name ≤ 200) :
    Plain g.uuid (queried h i g) ∧ ((queried h i g).processes.length ≤ 4096 ↔
      ∀ r, h.card i = .done r → (commandProcesses r).length ≤ 4096) := by
  have hfew : ([] : List Process).length ≤ 4096 := Nat.zero_le _
  have hnone : ∀ p ∈ ([] : List Process), Listed p := fun p hp => absurd hp List.not_mem_nil
  unfold queried
  cases hcard : h.card i with
  | notStarted =>
    refine ⟨⟨rfl, hname, fieldsFit_empty.mono (Nat.zero_le _), rfl, hnone⟩, iff_of_true hfew ?_⟩
    exact fun r hr => by cases hr
  | failed =>
    have hfields : FieldsFit 1 (assign Table.empty [("query", "timeout_or_failure")]) :=
      fieldsFit_empty.assign (fun kv hkv => by
        rw [List.mem_singleton.mp hkv]
        exact ⟨by decide, by decide⟩)
    rw [hbare]
    refine ⟨⟨rfl, hname, hfields.mono (by decide), rfl, hnone⟩, iff_of_true hfew ?_⟩
    exact fun r hr => by cases hr
  | done r =>
    obtain ⟨hplain, hcount⟩ : Plain g.uuid (gpu g.uuid r) ∧
        ((gpu g.uuid r).processes.length ≤ 4096 ↔ (commandProcesses r).length ≤ 4096) :=
      plain_gpu (hh.cards i r hcard)
    refine ⟨⟨hplain.uuid_eq, ?_, hplain.fields, hplain.metrics, hplain.processes⟩, ?_⟩
    · simp only
      split_ifs
      · exact hname
      · exact hplain.name_len
    · refine hcount.trans ⟨fun hle r' hr' => ?_, fun hall => hall r rfl⟩
      cases hr'
      exact hle

theorem len_uid (uid : UInt32) : len (toString uid.toNat) ≤ 10 :=
  len_toString_nat (by decide) (lt_trans uid.toNat_lt (by decide))

theorem attributed_spec {info : Option ProcessInfo} (hp : Listed p) (hinfo : ∀ i ∈ info, i.Sized) :
    (attributed c info p).pid = p.pid ∧ (attributed c info p).memory = p.memory ∧
      len (attributed c info p).name ≤ 256 ∧ len (attributed c info p).user ≤ 256 ∧
      len (attributed c info p).uid ≤ 64 := by
  obtain ⟨-, hname, huid, -, -⟩ := hp
  have hunknown : len "未知" ≤ 256 := by decide
  have hnouid : len p.uid ≤ 64 := by
    rw [huid]
    decide
  unfold attributed
  cases hvisible : if c.wsl then none else info with
  | none => exact ⟨rfl, rfl, hname, hunknown, hnouid⟩
  | some info' =>
    have hsized : info'.Sized := by
      split_ifs at hvisible
      exact hinfo info' hvisible
    refine ⟨rfl, rfl, ?_, ?_, ?_⟩
    · cases hn : info'.name with
      | none => simpa [hn] using hname
      | some name => simpa [hn] using hsized.name name hn
    · cases huids : info'.uids with
      | nil => simpa [huids] using hunknown
      | cons uid rest =>
        cases hu : info'.username with
        | none => simpa [huids, hu] using (len_uid uid).trans (by decide)
        | some username => simpa [huids, hu] using hsized.username username hu
    · cases huids : info'.uids with
      | nil => simpa [huids] using hnouid
      | cons uid rest => simpa [huids] using (len_uid uid).trans (by decide)

theorem valid_process {info : Option ProcessInfo} (hp : Listed p)
    (hinfo : ∀ i ∈ info, i.Sized) (uuid : String) :
    invalidProcess (observed c h uuid (attributed c info p)) = false := by
  obtain ⟨hpid, hmemory, hname, huser, huid⟩ := attributed_spec (c := c) hp hinfo
  have hpos : 0 < (attributed c info p).pid := hpid ▸ hp.1
  have hcheck : check (attributed c info p).memory (10 ^ 15) = true := hmemory ▸ hp.2.2.2.2
  simp only [invalidProcess, observed, hcheck, Bool.not_true, Bool.or_false, Bool.or_eq_false_iff]
  exact ⟨⟨⟨decide_eq_false (not_le.mpr hpos), decide_eq_false (not_lt.mpr hname)⟩,
    decide_eq_false (not_lt.mpr huser)⟩, decide_eq_false (not_lt.mpr huid)⟩

theorem length_optional {α : Type*} (P : Prop) [Decidable P] (x : α) :
    (if P then [x] else []).length ≤ 1 := by
  split_ifs <;> simp

/-- A card of a round keeps its identity and passes all checks but that on its processes. -/
theorem fine_card (hh : h.Sized) (hbare : Bare g)
    (hg : g.uuid ≠ "" ∧ len g.uuid ≤ 128 ∧ len g.name ≤ 200) :
    Fine (card c h i g) ∧ (card c h i g).uuid = g.uuid ∧
      ((card c h i g).processes.length ≤ 4096 ↔
        ∀ r, h.card i = .done r → (commandProcesses r).length ≤ 4096) := by
  obtain ⟨hplain, hcount⟩ := plain_queried (i := i) hh hbare hg.2.2
  have huuid : (card c h i g).uuid = g.uuid := hplain.uuid_eq
  have hlength : (card c h i g).processes.length = (queried h i g).processes.length := by
    simp [card]
  refine ⟨?_, huuid, by rw [hlength]; exact hcount⟩
  have hscope : len "scope" ≤ 64 ∧
      len "WSL GPU shared with Windows; process attribution unavailable" ≤ 512 := by decide
  have husers : len "users" ≤ 64 ∧ len "partial" ≤ 512 := by decide
  have hfields : FieldsFit 9 (card c h i g).fields := by
    unfold card
    refine (hplain.fields.assign (fun kv hkv => ?_)).mono ?_
    · rcases List.mem_append.mp hkv with hkv | hkv
      · rw [List.mem_singleton.mp (List.mem_ite_nil_right.mp hkv).2]
        exact hscope
      · rw [List.mem_singleton.mp (List.mem_ite_nil_right.mp hkv).2]
        exact husers
    · rw [List.length_append]
      exact Nat.add_le_add_left (Nat.add_le_add (length_optional _ _) (length_optional _ _)) 7
  exact {
    uuid_ne := huuid ▸ hg.1
    uuid_len := huuid ▸ hg.2.1
    name_len := hplain.name_len
    fields_len := hfields.1.trans (by decide)
    fields := hfields.2
    metrics := hplain.metrics
    processes := fun p hp => by
      obtain ⟨q, hq, rfl⟩ := List.mem_map.mp hp
      exact valid_process (hplain.processes q.1 (List.fst_mem_of_mem_zipIdx hq))
        (fun info hinfo => hh.processes i q.2 info hinfo) _ }

end Cards

/-! ## Host -/

/-- No counter grows faster than the rates that the hub accepts. -/
structure Paced (c : Collector) (h : Host) : Prop where
  counters : ∀ n ∈ h.counters, ∀ p ∈ c.nets.find? n.name, ∀ dt ∈ elapsed c h,
    p.bytesRecv ≤ n.bytesRecv ∧ p.bytesSent ≤ n.bytesSent →
      ((n.bytesRecv - p.bytesRecv : ℕ) : ℚ) ≤ 10 ^ 15 * dt ∧
        ((n.bytesSent - p.bytesSent : ℕ) : ℚ) ≤ 10 ^ 15 * dt
  devices : ∀ n ∈ blockDevices h, ∀ p ∈ c.ios.find? n.name, ∀ dt ∈ elapsed c h,
    p.readBytes ≤ n.readBytes ∧ p.writeBytes ≤ n.writeBytes →
      ((n.readBytes - p.readBytes : ℕ) : ℚ) ≤ 10 ^ 15 * dt ∧
        ((n.writeBytes - p.writeBytes : ℕ) : ℚ) ≤ 10 ^ 15 * dt

section System

variable {c : Collector} {h : Host}

theorem elapsed_pos {dt : ℚ} (hdt : dt ∈ elapsed c h) : 0 < dt := by
  obtain ⟨p, -, hp⟩ := Option.bind_eq_some_iff.mp hdt
  split_ifs at hp with hpos
  cases hp
  exact hpos

theorem check_rate {bytes : ℕ} {dt : ℚ} (hdt : 0 < dt) :
    check (some ((bytes : ℚ) / dt)) (10 ^ 15) = true ↔ (bytes : ℚ) ≤ 10 ^ 15 * dt := by
  have hnonneg : 0 ≤ (bytes : ℚ) / dt := by positivity
  rw [← div_le_iff₀ hdt]
  simp [check, hnonneg]

theorem network_valid_iff {n : NetCounter} (hname : len n.name ≤ 128) :
    invalidNetwork (network c h n) = false ↔ ∀ p ∈ c.nets.find? n.name, ∀ dt ∈ elapsed c h,
      p.bytesRecv ≤ n.bytesRecv ∧ p.bytesSent ≤ n.bytesSent →
        ((n.bytesRecv - p.bytesRecv : ℕ) : ℚ) ≤ 10 ^ 15 * dt ∧
          ((n.bytesSent - p.bytesSent : ℕ) : ℚ) ≤ 10 ^ 15 * dt := by
  have hlong : decide (len n.name > 128) = false := decide_eq_false (not_lt.mpr hname)
  unfold network
  cases hp : c.nets.find? n.name with
  | none => simp [invalidNetwork, check, hname]
  | some p =>
    cases hdt : elapsed c h with
    | none => simp [invalidNetwork, check, hname]
    | some dt =>
      have hpos := elapsed_pos hdt
      simp only [Option.mem_def, Option.some.injEq, forall_eq']
      by_cases hback : p.bytesRecv ≤ n.bytesRecv ∧ p.bytesSent ≤ n.bytesSent
      · rw [if_pos hback, forall_prop_of_true hback, ← check_rate hpos, ← check_rate hpos]
        simp only [invalidNetwork, hlong, Bool.false_or, Bool.or_eq_false_iff, Bool.not_eq_false']
      · rw [if_neg hback]
        simp [invalidNetwork, check, hname, hback]

theorem blockDevice_valid_iff {n : IOCounter} (hname : len n.name ≤ 256) :
    invalidIO (blockDevice c h n) = false ↔ ∀ p ∈ c.ios.find? n.name, ∀ dt ∈ elapsed c h,
      p.readBytes ≤ n.readBytes ∧ p.writeBytes ≤ n.writeBytes →
        ((n.readBytes - p.readBytes : ℕ) : ℚ) ≤ 10 ^ 15 * dt ∧
          ((n.writeBytes - p.writeBytes : ℕ) : ℚ) ≤ 10 ^ 15 * dt := by
  have hlong : decide (len n.name > 256) = false := decide_eq_false (not_lt.mpr hname)
  unfold blockDevice
  cases hp : c.ios.find? n.name with
  | none => simp [check, invalidIO, hname]
  | some p =>
    cases hdt : elapsed c h with
    | none => simp [check, invalidIO, hname]
    | some dt =>
      have hpos := elapsed_pos hdt
      simp only [Option.mem_def, Option.some.injEq, forall_eq']
      by_cases hback : p.readBytes ≤ n.readBytes ∧ p.writeBytes ≤ n.writeBytes
      · rw [if_pos hback, forall_prop_of_true hback, ← check_rate hpos, ← check_rate hpos]
        simp only [hlong, invalidIO, Bool.false_or, Bool.or_eq_false_iff, Bool.not_eq_false']
      · rw [if_neg hback]
        simp [check, invalidIO, hname, hback]

theorem mem_of_uniqueMounts {devices : List String} {parts : List Partition} {p : Partition}
    (hp : p ∈ uniqueMounts devices parts) : p ∈ parts := by
  induction parts generalizing devices with
  | nil => exact hp
  | cons q rest ih =>
    rw [uniqueMounts] at hp
    split_ifs at hp
    · exact List.mem_cons_of_mem _ (ih hp)
    · rcases List.mem_cons.mp hp with rfl | hp
      · exact List.mem_cons_self
      · exact List.mem_cons_of_mem _ (ih hp)

theorem disks_valid (hh : h.Sized) (c : Collector) :
    (system c h).disks.length ≤ 32 ∧ ∀ d ∈ (system c h).disks, invalidDisk d = false := by
  constructor
  · rw [system, List.length_map]
    exact List.length_take_le _ _
  · intro d hd
    obtain ⟨p, hp, rfl⟩ := List.mem_map.mp hd
    obtain ⟨hpath, hdevice⟩ := hh.partitions p (mem_of_uniqueMounts (List.mem_of_mem_take hp))
    have hlimits : ∀ d : Disk, d.path = p.mountpoint → d.device = p.device → d.free ≤ d.total →
        invalidDisk d = false := by
      intro d hd hd' hfree
      rw [invalidDisk, hd, hd', decide_eq_false (not_lt.mpr hpath),
        decide_eq_false (not_lt.mpr hdevice), decide_eq_false (not_lt.mpr hfree)]
      rfl
    unfold mountedDisk
    cases hdisk : h.disk p with
    | done u =>
      cases u with
      | ok total free => exact hlimits _ rfl rfl (hh.disk p total free hdisk)
      | denied => exact hlimits _ rfl rfl le_rfl
      | failed => exact hlimits _ rfl rfl le_rfl
    | late => exact hlimits _ rfl rfl le_rfl
    | crashed => exact hlimits _ rfl rfl le_rfl

theorem system_valid (hh : h.Sized) (c : Collector) : invalidSystem (system c h) = false := by
  have hcpu : check (system c h).cpu 100 = true := by
    refine check_of_le (fun v hv => ?_) (fun v hv => ?_)
    all_goals
      simp only [system, Option.mem_def] at hv
      split_ifs at hv
      obtain ⟨loads, hloads, hv⟩ := Option.bind_eq_some_iff.mp hv
      have hbound := hh.cpu loads hloads v (List.mem_of_mem_head? hv)
    · exact hbound.1
    · exact hbound.2
  have hload : check (system c h).load 1000000 = true :=
    check_of_le (fun v hv => (hh.load v hv).1) (fun v hv => (hh.load v hv).2)
  have hmemory : (system c h).memoryAvailable ≤ (system c h).memoryTotal := by
    simp only [system]
    cases hm : h.memory with
    | none => exact le_rfl
    | some m => exact hh.memory m hm
  rw [invalidSystem, hcpu, hload, decide_eq_false (not_lt.mpr hmemory)]
  rfl

end System

/-! ## Rounds -/

/-- The list of cards that a collector keeps. -/
structure Collector.Ready (c : Collector) : Prop where
  cards : CardsSized c.inventory
  bare : ∀ g ∈ c.inventory, Bare g

/-- The lists of a round are no longer than the hub accepts, and no rate is too high. -/
structure Deliverable (c : Collector) (h : Host) : Prop where
  interfaces : h.counters.length ≤ 256
  devices : (blockDevices h).length ≤ 256
  processes : ∀ i < (known c h).length, ∀ r, h.card i = .done r → (commandProcesses r).length ≤ 4096
  paced : Paced c h

/-- What `run` adds to a snapshot: 16 random bytes in hexadecimal, and a configuration whose interval
is checked when it is read and whose node was named by the hub. -/
structure Stamp where
  nodeID : String
  bootID : String
  seq : ℤ
  interval : ℤ
  cacheDropped : ℤ
  nodeID_ne : nodeID ≠ ""
  nodeID_len : len nodeID ≤ 100
  bootID_len : len bootID = 32
  seq_pos : 1 ≤ seq
  interval_ge : 2 ≤ interval
  interval_le : interval ≤ 20

def Stamp.apply (t : Stamp) (s : Snapshot) : Snapshot :=
  { s with
    nodeID := t.nodeID
    bootID := t.bootID
    seq := t.seq
    interval := t.interval
    cacheDropped := t.cacheDropped }

theorem sampled_apply (t : Stamp) (config : Agent.Config) (st : Agent.State) (s : Snapshot)
    (hwaiting : st.sampling = .waiting) (hconfig : config = ⟨t.nodeID, t.interval⟩)
    (hboot : st.boot = t.bootID) (hseq : st.seq + 1 = t.seq) (hdropped : st.dropped = t.cacheDropped) :
    (st.sample config s).sampling = .sampled (t.apply s) := by
  subst hconfig
  rw [Agent.State.sample, hwaiting]
  simp only [hboot, hseq, hdropped]
  rfl

section Rounds

variable {c : Collector} {h : Host} {t : Stamp} {hubNow : ℤ} {late : Bool}

theorem ready_new (osrelease : String) : (Collector.new osrelease).Ready where
  cards := ⟨Nat.zero_le _, List.nodup_nil, fun _ hg => absurd hg List.not_mem_nil⟩
  bare := fun _ hg => absurd hg List.not_mem_nil

theorem Collector.Ready.known (hc : c.Ready) (hh : h.Sized) :
    CardsSized (known c h) ∧ ∀ g ∈ Collect.known c h, Bare g := by
  unfold Collect.known
  cases hrenewal : renewal c h with
  | none => exact ⟨hc.cards, hc.bare⟩
  | some cards =>
    unfold renewal at hrenewal
    split_ifs at hrenewal
    obtain ⟨r, hr, hcards⟩ := Option.bind_eq_some_iff.mp hrenewal
    exact ⟨hh.inventory r hr cards hcards, bare_inventory hcards⟩

theorem Collector.Ready.sample (hc : c.Ready) (hh : h.Sized) : (c.sample h).2.Ready :=
  ⟨(hc.known hh).1, (hc.known hh).2⟩

theorem validate_iff (now : ℤ) (s : Snapshot) : validate now s = .ok () ↔
    invalidSnapshot now s = false ∧ invalidSystem s.system = false ∧
      (∀ n ∈ s.system.networks, invalidNetwork n = false) ∧
      (∀ d ∈ s.system.disks, invalidDisk d = false) ∧ (∀ d ∈ s.system.io, invalidIO d = false) ∧
      validateGPUs [] s.gpus = .ok () := by
  have hall : ∀ {α : Type} (f : α → Bool) (l : List α), l.any f = false ↔ ∀ a ∈ l, f a = false := by
    intro α f l
    simp
  rw [← hall invalidNetwork, ← hall invalidDisk, ← hall invalidIO]
  unfold validate
  split_ifs <;> simp_all

theorem length_gpus (c : Collector) (h : Host) : (gpus c h).length = (known c h).length := by
  rw [gpus, List.length_map, List.length_zipIdx]

theorem getElem_gpus {i : ℕ} (hi : i < (gpus c h).length) (hi' : i < (known c h).length) :
    (gpus c h)[i] = card c h i (known c h)[i] := by
  simp [gpus]

theorem mem_gpus {g : GPU} : g ∈ gpus c h ↔
    ∃ i, ∃ hi : i < (known c h).length, card c h i (known c h)[i] = g := by
  rw [List.mem_iff_getElem]
  constructor
  · rintro ⟨i, hi, rfl⟩
    have hi' : i < (known c h).length := length_gpus c h ▸ hi
    exact ⟨i, hi', (getElem_gpus hi hi').symm⟩
  · rintro ⟨i, hi', rfl⟩
    have hi : i < (gpus c h).length := (length_gpus c h).symm ▸ hi'
    exact ⟨i, hi, getElem_gpus hi hi'⟩

theorem gpus_valid_iff (hc : c.Ready) (hh : h.Sized) : validateGPUs [] (gpus c h) = .ok () ↔
    ∀ i < (known c h).length, ∀ r, h.card i = .done r → (commandProcesses r).length ≤ 4096 := by
  obtain ⟨hsized, hbare⟩ := hc.known hh
  have hfine := fun i g (hg : g ∈ known c h) =>
    fine_card (c := c) (i := i) hh (hbare g hg) (hsized.card g hg)
  have huuids : (gpus c h).map GPU.uuid = (known c h).map GPU.uuid := by
    apply List.ext_getElem (by simp [length_gpus])
    intro i hi hi'
    rw [List.getElem_map, List.getElem_map, getElem_gpus _ (by simpa using hi')]
    exact (hfine i _ (List.getElem_mem _)).2.1
  have hall : ∀ g ∈ gpus c h, Fine g := by
    intro g hg
    obtain ⟨i, hi, rfl⟩ := mem_gpus.mp hg
    exact (hfine i _ (List.getElem_mem hi)).1
  rw [validateGPUs_iff hall, huuids]
  constructor
  · rintro ⟨-, -, hfew⟩ i hi
    exact (hfine i _ (List.getElem_mem hi)).2.2.mp (hfew _ (mem_gpus.mpr ⟨i, hi, rfl⟩))
  · intro hfew
    refine ⟨hsized.distinct, fun g _ => List.not_mem_nil, fun g hg => ?_⟩
    obtain ⟨i, hi, rfl⟩ := mem_gpus.mp hg
    exact (hfine i _ (List.getElem_mem hi)).2.2.mpr (hfew i hi)

theorem invalidSnapshot_iff (now : ℤ) (s : Snapshot) : invalidSnapshot now s = false ↔
    s.version = 1 ∧ s.nodeID ≠ "" ∧ len s.nodeID ≤ 100 ∧ s.bootID ≠ "" ∧ len s.bootID ≤ 100 ∧
      1 ≤ s.seq ∧ 2 ≤ s.interval ∧ s.interval ≤ 60 ∧ s.atMs ≤ now + 30000 ∧
      now - 25 * 3600000 ≤ s.atMs ∧ len s.hostname ≤ 200 ∧ s.gpus.length ≤ 128 ∧
      s.system.networks.length ≤ 256 ∧ s.system.disks.length ≤ 64 ∧ s.system.io.length ≤ 256 := by
  rw [← Bool.not_eq_true, invalidSnapshot]
  simp only [Bool.or_eq_true, decide_eq_true_eq, not_or, not_lt, bne_iff_ne, ne_eq, not_not,
    beq_iff_eq, and_assoc]

theorem snapshot_valid_iff (hc : c.Ready) (hh : h.Sized)
    (hwindow : h.nowMs ≤ hubNow + 30000 ∧ hubNow - 25 * 3600000 ≤ h.nowMs) :
    invalidSnapshot hubNow { t.apply (c.sample h).1 with backfill := late } = false ↔
      h.counters.length ≤ 256 ∧ (blockDevices h).length ≤ 256 := by
  have hgpus : (gpus c h).length ≤ 128 := length_gpus c h ▸ (hc.known hh).1.few
  have hdisks := (disks_valid hh c).1
  have hboot : t.bootID ≠ "" := by
    have hlen := t.bootID_len
    rintro hempty
    rw [hempty] at hlen
    exact absurd hlen (by decide)
  have hnetworks : (system c h).networks.length = h.counters.length := List.length_map _
  have hio : (system c h).io.length = (blockDevices h).length := List.length_map _
  have hname := hh.hostname
  have hnodeLen := t.nodeID_len
  have hbootLen := t.bootID_len
  have hseq := t.seq_pos
  have hge := t.interval_ge
  have hle := t.interval_le
  rw [invalidSnapshot_iff]
  simp only [Stamp.apply, Collector.sample, hnetworks, hio]
  constructor
  · exact fun hall => ⟨by omega, by omega⟩
  · rintro ⟨hinterfaces, hdevices⟩
    exact ⟨trivial, t.nodeID_ne, hnodeLen, hboot, by omega, hseq, by omega, by omega, by omega,
      by omega,
      hname, hgpus, hinterfaces, by omega, hdevices⟩

/-- One round: the hub accepts its snapshot exactly when it is deliverable. -/
theorem validate_round_iff (hc : c.Ready) (hh : h.Sized)
    (hwindow : h.nowMs ≤ hubNow + 30000 ∧ hubNow - 25 * 3600000 ≤ h.nowMs) :
    validate hubNow { t.apply (c.sample h).1 with backfill := late } = .ok () ↔ Deliverable c h := by
  rw [validate_iff, snapshot_valid_iff hc hh hwindow]
  have hnetworks : (∀ n ∈ (system c h).networks, invalidNetwork n = false) ↔
      ∀ n ∈ h.counters, invalidNetwork (network c h n) = false := List.forall_mem_map
  have hio : (∀ d ∈ (system c h).io, invalidIO d = false) ↔
      ∀ n ∈ blockDevices h, invalidIO (blockDevice c h n) = false := List.forall_mem_map
  have hdevice : ∀ n ∈ blockDevices h, len n.name ≤ 256 :=
    fun n hn => hh.devices n (List.mem_filter.mp hn).1
  simp only [Stamp.apply, Collector.sample, hnetworks, hio, system_valid hh, gpus_valid_iff hc hh]
  constructor
  · rintro ⟨⟨hinterfaces, hdevices⟩, -, hnet, -, hblock, hprocesses⟩
    exact ⟨hinterfaces, hdevices, hprocesses,
      ⟨fun n hn => (network_valid_iff (hh.counters n hn)).mp (hnet n hn),
        fun n hn => (blockDevice_valid_iff (hdevice n hn)).mp (hblock n hn)⟩⟩
  · rintro ⟨hinterfaces, hdevices, hprocesses, hpaced⟩
    exact ⟨⟨hinterfaces, hdevices⟩, trivial,
      fun n hn => (network_valid_iff (hh.counters n hn)).mpr (hpaced.counters n hn),
      (disks_valid hh c).2,
      fun n hn => (blockDevice_valid_iff (hdevice n hn)).mpr (hpaced.devices n hn), hprocesses⟩

def after (osrelease : String) (rounds : List Host) : Collector :=
  rounds.foldl (fun c h => (c.sample h).2) (Collector.new osrelease)

theorem ready_after {osrelease : String} {rounds : List Host} (hsized : ∀ h ∈ rounds, h.Sized) :
    (after osrelease rounds).Ready := by
  have hrun : ∀ {c : Collector}, c.Ready →
      (rounds.foldl (fun c h => (c.sample h).2) c).Ready := by
    induction rounds with
    | nil => exact fun hc => hc
    | cons h rounds ih =>
      intro c hc
      have hnext := hc.sample (hsized h List.mem_cons_self)
      exact ih (fun h' hh' => hsized h' (List.mem_cons_of_mem h hh')) hnext
  exact hrun (ready_new osrelease)

/-- In every run the hub accepts the sample of a round exactly when no list is longer than its
limit and no counter grew too fast. -/
theorem validate_sample_iff (osrelease : String) (rounds : List Host) (h : Host)
    (hrounds : ∀ r ∈ rounds, r.Sized) (hsized : h.Sized) (t : Stamp) (hubNow : ℤ) (late : Bool)
    (hwindow : h.nowMs ≤ hubNow + 30000 ∧ hubNow - 25 * 3600000 ≤ h.nowMs) :
    validate hubNow { t.apply ((after osrelease rounds).sample h).1 with backfill := late } = .ok () ↔
      Deliverable (after osrelease rounds) h :=
  validate_round_iff (ready_after hrounds) hsized hwindow

/-! ## Containers -/

def bridged (counters : List NetCounter) (seconds : ℕ) : Host where
  nowMs := 1000 * seconds
  begun := seconds
  hostname := "gpu-host"
  cores := 8
  cpu := some [3]
  load := some 1
  memory := some (64, 48)
  swap := none
  counters := counters
  countersOk := true
  interfaces := []
  route := none
  devices := Table.empty
  devicesOk := true
  partitions := []
  partitionsOk := true
  disk := fun _ => .crashed
  inspected := seconds
  inventory := none
  renewed := seconds
  card := fun _ => .notStarted
  process := fun _ _ => none

theorem bridged_sized {counters : List NetCounter} {seconds : ℕ}
    (hnames : ∀ n ∈ counters, len n.name ≤ 128) : (bridged counters seconds).Sized where
  hostname := by
    have hname : len "gpu-host" ≤ 200 := by decide
    exact hname
  cpu := fun loads hloads v hv => by
    cases hloads
    rw [List.mem_singleton.mp hv]
    norm_num
  load := fun v hv => by
    cases hv
    norm_num
  memory := fun m hm => by
    cases hm
    decide
  counters := hnames
  devices := fun d hd => absurd hd List.not_mem_nil
  partitions := fun p hp => absurd hp List.not_mem_nil
  disk := fun p total free hdisk => by cases hdisk
  inventory := fun r hr => by cases hr
  cards := fun i r hr => by cases hr
  processes := fun i j info hinfo => by cases hinfo

def stamp : Stamp where
  nodeID := "n"
  bootID := "00112233445566778899aabbccddeeff"
  seq := 1
  interval := 5
  cacheDropped := 0
  nodeID_ne := by decide
  nodeID_len := by decide
  bootID_len := by decide
  seq_pos := by decide
  interval_ge := by decide
  interval_le := by decide

/-- One interface, and a second round five seconds after the first. -/
theorem bridge_accepted :
    validate 5000 { stamp.apply
        ((after "linux" [bridged [⟨"eth0", 100, 100⟩] 0]).sample (bridged [⟨"eth0", 900, 100⟩] 5)).1
      with backfill := false } = .ok () := by
  have hnames : ∀ counters : List NetCounter, counters.map NetCounter.name = ["eth0"] →
      ∀ n ∈ counters, len n.name ≤ 128 := by
    intro counters hcounters n hn
    have hname := List.mem_map_of_mem (f := NetCounter.name) hn
    rw [hcounters, List.mem_singleton] at hname
    rw [hname]
    decide
  have hrounds : ∀ r ∈ [bridged [⟨"eth0", 100, 100⟩] 0], r.Sized := by
    intro r hr
    rw [List.mem_singleton.mp hr]
    exact bridged_sized (hnames _ rfl)
  refine (validate_sample_iff "linux" [bridged [⟨"eth0", 100, 100⟩] 0] (bridged [⟨"eth0", 900, 100⟩] 5)
    hrounds (bridged_sized (hnames _ rfl)) stamp 5000 false ⟨by decide, by decide⟩).mpr ?_
  exact {
    interfaces := by decide
    devices := by decide
    processes := fun i hi r hr => by cases hr
    paced := {
      counters := fun n hn p hp dt hdt _ => by
        cases List.mem_singleton.mp hn
        have hbefore : p = ⟨"eth0", 100, 100⟩ := (Option.some.inj hp).symm
        have hseconds : dt = 5 := by
          have hfive : elapsed (after "linux" [bridged [⟨"eth0", 100, 100⟩] 0])
              (bridged [⟨"eth0", 900, 100⟩] 5) = some 5 := by
            simp [elapsed, after, Collector.sample, bridged]
          rw [hfive] at hdt
          exact (Option.some.inj hdt).symm
        subst hbefore hseconds
        norm_num
      devices := fun n hn => absurd hn List.not_mem_nil } }

/-- Each container adds an interface. -/
theorem containers_refused : ¬ ∀ (osrelease : String) (rounds : List Host) (h : Host),
    (∀ r ∈ rounds, r.Sized) → h.Sized → ∀ (t : Stamp) (hubNow : ℤ) (late : Bool),
      h.nowMs ≤ hubNow + 30000 ∧ hubNow - 25 * 3600000 ≤ h.nowMs →
        validate hubNow { t.apply ((after osrelease rounds).sample h).1 with backfill := late } =
          .ok () := by
  intro hall
  let counters := (List.range 257).map (fun i => (⟨"veth" ++ toString i, 0, 0⟩ : NetCounter))
  have hnames : ∀ n ∈ counters, len n.name ≤ 128 := by
    intro n hn
    obtain ⟨i, hi, rfl⟩ := List.mem_map.mp hn
    have hdigits : len (toString i) ≤ 3 :=
      len_toString_nat (by decide) ((List.mem_range.mp hi).trans (by decide))
    have hveth : "veth".utf8ByteSize = 4 := rfl
    rw [len] at hdigits
    rw [len, String.utf8ByteSize_append]
    omega
  have hsized : (bridged counters 0).Sized := bridged_sized hnames
  have hwindow : (bridged counters 0).nowMs ≤ (0 : ℤ) + 30000 ∧
      (0 : ℤ) - 25 * 3600000 ≤ (bridged counters 0).nowMs := ⟨by decide, by decide⟩
  have haccepted := hall "linux" [] (bridged counters 0) (fun r hr => absurd hr List.not_mem_nil)
    hsized stamp 0 false hwindow
  have hfew := ((validate_round_iff (ready_new "linux") hsized hwindow).mp haccepted).interfaces
  have hlength : counters.length = 257 := by
    rw [List.length_map, List.length_range]
  exact absurd (hlength ▸ hfew) (by decide)

end Rounds

end CardScope.Collect
