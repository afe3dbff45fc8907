import CardScope.Model.Snapshot

/-! # Validation of reports

The limits on size, numbers and time that a report must meet before it is stored. The
window of 25 hours covers the 24 hours of the client's queue.
-/

namespace CardScope.Hub
open Library Model

abbrev len (s : String) : ℕ := s.utf8ByteSize

/-- A missing metric passes, a number must lie in `[0, max]`. -/
def check (p : Option ℚ) (max : ℚ) : Bool := p.all (fun v => 0 ≤ v && v ≤ max)

def invalidSnapshot (now : ℤ) (s : Snapshot) : Bool :=
  s.version != 1 ||
  s.nodeID == "" || len s.nodeID > 100 ||
  s.bootID == "" || len s.bootID > 100 ||
  s.seq < 1 ||
  s.interval < 2 || s.interval > 60 ||
  s.atMs > now + 30000 || s.atMs < now - 25 * 3600000 ||
  len s.hostname > 200 ||
  s.gpus.length > 128 ||
  s.system.networks.length > 256 ||
  s.system.disks.length > 64 ||
  s.system.io.length > 256

def invalidSystem (s : System) : Bool :=
  !check s.cpu 100 || !check s.load 1000000 || s.memoryAvailable > s.memoryTotal

def invalidNetwork (n : Network) : Bool :=
  len n.name > 128 || !check n.rxRate (10 ^ 15) || !check n.txRate (10 ^ 15)

def invalidDisk (d : Disk) : Bool :=
  len d.path > 2048 || len d.device > 512 || d.free > d.total

def invalidIO (d : BlockIO) : Bool :=
  len d.device > 256 || !check d.readRate (10 ^ 15) || !check d.writeRate (10 ^ 15)

def invalidMetrics (g : GPU) : Bool :=
  !check g.util 100 ||
  !check g.memoryUsed (10 ^ 15) ||
  !check g.memoryTotal (10 ^ 15) ||
  !check g.temperature 250 ||
  !check g.power (10 ^ 5)

def invalidProcess (p : Process) : Bool :=
  p.pid ≤ 0 || len p.name > 256 || len p.user > 256 || len p.uid > 64 ||
  !check p.memory (10 ^ 15)

def validateGPU (seen : List String) (g : GPU) : Except String Unit :=
  if g.uuid == "" || len g.uuid > 128 || len g.name > 200 || g.uuid ∈ seen ||
      g.processes.length > 4096 || g.fields.rows.length > 64 then
    .error "invalid GPU"
  else if g.fields.rows.any (fun field => len field.1 > 64 || len field.2 > 512) then
    .error "invalid field"
  else if invalidMetrics g then
    .error "invalid GPU metric"
  else if g.processes.any invalidProcess then
    .error "invalid process"
  else .ok ()

def validateGPUs : List String → List GPU → Except String Unit
  | _, [] => .ok ()
  | seen, g :: rest => do
    validateGPU seen g
    validateGPUs (g.uuid :: seen) rest

/-- The first limit that a report breaks at clock reading `now`, or success. -/
def validate (now : ℤ) (s : Snapshot) : Except String Unit :=
  if invalidSnapshot now s then .error "invalid snapshot or clock outside accepted window"
  else if invalidSystem s.system then .error "invalid system metrics"
  else if s.system.networks.any invalidNetwork then .error "invalid network"
  else if s.system.disks.any invalidDisk then .error "invalid disk"
  else if s.system.io.any invalidIO then .error "invalid IO"
  else validateGPUs [] s.gpus

/-- What the hub relies on in an accepted report. -/
structure Accepted (now : ℤ) (s : Snapshot) : Prop where
  seq_pos : 1 ≤ s.seq
  interval_ge : 2 ≤ s.interval
  interval_le : s.interval ≤ 60
  at_le : s.atMs ≤ now + 30000
  at_ge : now - 25 * 3600000 ≤ s.atMs
  uuids_nodup : (s.gpus.map GPU.uuid).Nodup
  util_bound : ∀ g ∈ s.gpus, ∀ u ∈ g.util, 0 ≤ u ∧ u ≤ 100
  memory_nonneg : ∀ g ∈ s.gpus, ∀ m ∈ g.memoryUsed, 0 ≤ m

theorem check_bound {p : Option ℚ} {max v : ℚ} (h : check p max = true) (hv : v ∈ p) :
    0 ≤ v ∧ v ≤ max := by
  rw [Option.mem_def] at hv
  subst hv
  simpa [check] using h

theorem validateGPU_ok {seen : List String} {g : GPU} (h : validateGPU seen g = .ok ()) :
    g.uuid ∉ seen ∧ check g.util 100 = true ∧ check g.memoryUsed (10 ^ 15) = true := by
  unfold validateGPU at h
  split_ifs at h with h₁ h₂ h₃ h₄
  simp only [Bool.or_eq_true, decide_eq_true_eq, not_or, Bool.not_eq_true] at h₁
  simp only [invalidMetrics, Bool.or_eq_true, Bool.not_eq_true', not_or, Bool.not_eq_false] at h₃
  exact ⟨h₁.1.1.2, h₃.1.1.1.1, h₃.1.1.1.2⟩

theorem validateGPUs_ok {seen : List String} {gpus : List GPU}
    (h : validateGPUs seen gpus = .ok ()) :
    (gpus.map GPU.uuid).Nodup ∧ (∀ g ∈ gpus, g.uuid ∉ seen) ∧
      ∀ g ∈ gpus, check g.util 100 = true ∧ check g.memoryUsed (10 ^ 15) = true := by
  induction gpus generalizing seen with
  | nil => simp
  | cons g rest ih =>
    cases hg : validateGPU seen g with
    | error e => simp [validateGPUs, hg, bind, Except.bind] at h
    | ok _ =>
      simp only [validateGPUs, hg, bind, Except.bind] at h
      obtain ⟨hnodup, hseen, hcheck⟩ := ih h
      obtain ⟨hfresh, hg⟩ := validateGPU_ok hg
      refine ⟨?_, ?_, ?_⟩
      · rw [List.map_cons, List.nodup_cons]
        refine ⟨fun hm => ?_, hnodup⟩
        obtain ⟨g', hg', he⟩ := List.mem_map.mp hm
        exact hseen g' hg' (by simp [he])
      · rintro g' (_ | ⟨_, hg'⟩)
        · exact hfresh
        · exact fun hs => hseen g' hg' (List.mem_cons_of_mem _ hs)
      · rintro g' (_ | ⟨_, hg'⟩)
        · exact hg
        · exact hcheck g' hg'

theorem validate_ok {now : ℤ} {s : Snapshot} (h : validate now s = .ok ()) : Accepted now s := by
  unfold validate at h
  split_ifs at h with h₁ h₂ h₃ h₄ h₅
  simp only [invalidSnapshot, Bool.or_eq_true, decide_eq_true_eq, not_or, not_lt] at h₁
  obtain ⟨hnodup, -, hcheck⟩ := validateGPUs_ok h
  constructor
  · omega
  · omega
  · omega
  · omega
  · omega
  · exact hnodup
  · exact fun g hg u hu => check_bound (hcheck g hg).1 hu
  · exact fun g hg m hm => (check_bound (hcheck g hg).2 hm).1

end CardScope.Hub
