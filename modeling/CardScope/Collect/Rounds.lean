import CardScope.Collect.Accepted
import CardScope.Library.Blocks

/-! # Rounds of collection

What a collector keeps from round to round, as a function of the snapshots it made: since when each
process was listed without a break, and how far the counters have come.
-/

namespace CardScope.Collect
open Library Model Hub

/-! ## Processes -/

def snapshots : Collector → List Host → List Snapshot
  | _, [] => []
  | c, h :: rounds => (c.sample h).1 :: snapshots (c.sample h).2 rounds

/-- A card of the snapshot lists a process of this number and this time of creation. -/
def lists (uuid : String) (pid created : ℤ) (s : Snapshot) : Bool :=
  s.gpus.any (fun g => g.uuid == uuid &&
    g.processes.any (fun p => p.pid == pid && p.created == created))

variable {uuid : String} {pid created : ℤ} {s : Snapshot}

theorem lists_iff : lists uuid pid created s = true ↔
    ∃ g ∈ s.gpus, ∃ p ∈ g.processes, g.uuid = uuid ∧ p.pid = pid ∧ p.created = created := by
  simp only [lists, List.any_eq_true, Bool.and_eq_true, beq_iff_eq]
  constructor
  · rintro ⟨g, hg, huuid, p, hp, hpid, hcreated⟩
    exact ⟨g, hg, p, hp, huuid, hpid, hcreated⟩
  · rintro ⟨g, hg, p, hp, huuid, hpid, hcreated⟩
    exact ⟨g, hg, huuid, p, hp, hpid, hcreated⟩

theorem after_snoc (osrelease : String) (rounds : List Host) (h : Host) :
    after osrelease (rounds ++ [h]) = ((after osrelease rounds).sample h).2 := by
  simp [after]

theorem snapshots_append (c : Collector) (rounds later : List Host) :
    snapshots c (rounds ++ later) =
      snapshots c rounds ++ snapshots (rounds.foldl (fun c h => (c.sample h).2) c) later := by
  induction rounds generalizing c with
  | nil => rfl
  | cons h rounds ih => simp [snapshots, ih]

theorem snapshots_snoc (osrelease : String) (rounds : List Host) (h : Host) :
    snapshots (Collector.new osrelease) (rounds ++ [h]) =
      snapshots (Collector.new osrelease) rounds ++ [((after osrelease rounds).sample h).1] :=
  snapshots_append _ _ _

/-! ### Keys -/

theorem slash_notMem_digits (n : ℕ) : '/' ∉ (toString n).toList := by
  intro h
  have hdigits : toString n = String.ofList (Nat.toDigits 10 n) := Nat.repr_eq_ofList_toDigits
  rw [hdigits, String.toList_ofList] at h
  exact absurd (Nat.isDigit_of_mem_toDigits (by decide) (by decide) h) (by decide)

theorem slash_notMem (n : ℤ) : '/' ∉ (toString n).toList := by
  cases n with
  | ofNat n => exact slash_notMem_digits n
  | negSucc n =>
    have htext : toString (Int.negSucc n) = "-" ++ toString (n + 1) := rfl
    rw [htext, String.toList_append, List.mem_append]
    rintro (h | h)
    · exact absurd h (by decide)
    · exact slash_notMem_digits (n + 1) h

theorem cut_last {c : Char} {a a' b b' : List Char} (hb : c ∉ b) (hb' : c ∉ b')
    (h : a ++ c :: b = a' ++ c :: b') : a = a' ∧ b = b' := by
  rcases List.append_eq_append_iff.mp h with ⟨d, rfl, hd⟩ | ⟨d, rfl, hd⟩
  · cases d with
    | nil => exact ⟨by simp, by simpa using hd⟩
    | cons x d =>
      obtain ⟨rfl, rfl⟩ : c = x ∧ b = d ++ c :: b' := by simpa using hd
      simp at hb
  · cases d with
    | nil => exact ⟨by simp, by simpa using hd.symm⟩
    | cons x d =>
      obtain ⟨rfl, rfl⟩ : c = x ∧ b' = d ++ c :: b := by simpa using hd
      simp at hb'

theorem toList_processKey (uuid : String) (p : Process) : (processKey uuid p).toList =
    (uuid.toList ++ '/' :: (toString p.pid).toList) ++ '/' :: (toString p.created).toList := by
  have hslash : ("/" : String).toList = ['/'] := rfl
  simp [processKey, hslash]

theorem processKey_inj {uuid uuid' : String} {p q : Process} :
    processKey uuid p = processKey uuid' q ↔
      uuid = uuid' ∧ p.pid = q.pid ∧ p.created = q.created := by
  constructor
  · intro h
    have hlist := congrArg String.toList h
    rw [toList_processKey, toList_processKey] at hlist
    obtain ⟨hfront, hcreated⟩ := cut_last (slash_notMem _) (slash_notMem _) hlist
    obtain ⟨huuid, hpid⟩ := cut_last (slash_notMem _) (slash_notMem _) hfront
    exact ⟨String.toList_inj.mp huuid, Int.repr_inj.mp (String.toList_inj.mp hpid),
      Int.repr_inj.mp (String.toList_inj.mp hcreated)⟩
  · rintro ⟨rfl, hpid, hcreated⟩
    simp only [processKey, hpid, hcreated]

/-! ### What is kept -/

theorem find?_foldl_put {α : Type*} (value : String → α) {rows : List (String × α)}
    (hrows : ∀ r ∈ rows, r.2 = value r.1) (k : String) :
    (rows.foldl Table.put (Table.empty : Table (String × α) Prod.fst)).find? k =
      if k ∈ rows.map Prod.fst then some (k, value k) else none := by
  induction rows using List.reverseRecOn with
  | nil => rfl
  | append_singleton rows r ih =>
    rw [List.foldl_append, List.foldl_cons, List.foldl_nil, Table.find?_put,
      ih (fun x hx => hrows x (List.mem_append_left [r] hx))]
    by_cases hk : r.1 = k
    · subst hk
      have hvalue : r = (r.1, value r.1) := Prod.ext rfl (hrows r (by simp))
      simp [← hvalue]
    · have hk' : ¬ k = r.1 := fun h => hk h.symm
      simp only [List.map_append, List.map_cons, List.map_nil, List.mem_append,
        List.mem_singleton, hk, hk', or_false, if_false]

variable {c : Collector} {h : Host} {g : GPU} {p : Process}

/-- When a process with this key was seen first, as of this round. -/
def since (c : Collector) (h : Host) (key : String) : ℤ :=
  let first := ((c.seen.find? key).map Prod.snd).getD 0
  if first = 0 then h.nowMs else first

theorem seen_of_mem (hg : g ∈ gpus c h) (hp : p ∈ g.processes) :
    p.firstSeen = since c h (processKey g.uuid p) ∧ p.lastSeen = h.nowMs := by
  obtain ⟨i, hi, rfl⟩ := mem_gpus.mp hg
  simp only [card, List.mem_map] at hp
  obtain ⟨q, -, rfl⟩ := hp
  exact ⟨rfl, rfl⟩

theorem seen_sample (c : Collector) (h : Host) (uuid : String) (p : Process) :
    (c.sample h).2.seen.find? (processKey uuid p) =
      if lists uuid p.pid p.created (c.sample h).1 then
        some (processKey uuid p, since c h (processKey uuid p))
      else none := by
  have hrows : ∀ r ∈ (gpus c h).flatMap (fun g => g.processes.map (fun p =>
      (processKey g.uuid p, p.firstSeen))), r.2 = since c h r.1 := by
    intro r hr
    obtain ⟨g, hg, q, hq, rfl⟩ := by simpa using hr
    exact (seen_of_mem hg hq).1
  have hkey : processKey uuid p ∈ ((gpus c h).flatMap (fun g => g.processes.map (fun p =>
      (processKey g.uuid p, p.firstSeen)))).map Prod.fst ↔
      lists uuid p.pid p.created (c.sample h).1 = true := by
    rw [lists_iff]
    simp only [List.map_flatMap, List.map_map, List.mem_flatMap, List.mem_map,
      Function.comp_apply, processKey_inj]
    rfl
  change (((gpus c h).flatMap _).foldl Table.put Table.empty).find? _ = _
  rw [find?_foldl_put (since c h) hrows]
  simp only [hkey]

theorem atMs_of_mem {c : Collector} {rounds : List Host} (hs : s ∈ snapshots c rounds) :
    ∃ h ∈ rounds, s.atMs = h.nowMs := by
  induction rounds generalizing c with
  | nil => cases hs
  | cons h rounds ih =>
    rcases List.mem_cons.mp hs with rfl | hs
    · exact ⟨h, List.mem_cons_self, rfl⟩
    · obtain ⟨h', hh', heq⟩ := ih hs
      exact ⟨h', List.mem_cons_of_mem h hh', heq⟩

/-- The start of a block that lasts is kept, unless the clock stood at zero. -/
theorem since_of_start {start : Option Snapshot} {key : String}
    (hseen : c.seen.find? key = start.map (fun s => (key, s.atMs)))
    (hclock : ∀ s ∈ start, s.atMs ≠ 0) : since c h key = (start.map Snapshot.atMs).getD h.nowMs := by
  cases start with
  | none => simp [since, hseen]
  | some s => simp [since, hseen, hclock s rfl]

theorem atMs_currentStart {c : Collector} {rounds : List Host} {f : Snapshot → Bool}
    (hclock : ∀ r ∈ rounds, r.nowMs ≠ 0) :
    ∀ s ∈ currentStart f (snapshots c rounds), s.atMs ≠ 0 := by
  intro s hs
  obtain ⟨r, hr, hat⟩ := atMs_of_mem (mem_of_currentStart hs)
  exact hat ▸ hclock r hr

/-- A key is kept with the time of the snapshot that began the present block of snapshots which list
the process. -/
theorem seen_after (osrelease : String) {rounds : List Host} (hclock : ∀ r ∈ rounds, r.nowMs ≠ 0)
    (uuid : String) (p : Process) :
    (after osrelease rounds).seen.find? (processKey uuid p) =
      (currentStart (lists uuid p.pid p.created)
        (snapshots (Collector.new osrelease) rounds)).map (fun s => (processKey uuid p, s.atMs)) := by
  induction rounds using List.reverseRecOn with
  | nil => rfl
  | append_singleton rounds r ih =>
    have hrounds : ∀ r ∈ rounds, r.nowMs ≠ 0 := fun x hx => hclock x (List.mem_append_left [r] hx)
    rw [after_snoc, seen_sample, snapshots_snoc, currentStart_snoc,
      since_of_start (ih hrounds) (atMs_currentStart hrounds)]
    generalize currentStart (lists uuid p.pid p.created) _ = start
    split_ifs with hlists
    · cases start <;> rfl
    · rfl

/-- The time at which a process was seen first is that of the first snapshot of the unbroken row of
snapshots, up to this one, that list it on this card; the last is this one. -/
theorem firstSeen_since (osrelease : String) (rounds : List Host) (h : Host)
    (hclock : ∀ r ∈ rounds, r.nowMs ≠ 0) :
    ∀ g ∈ ((after osrelease rounds).sample h).1.gpus, ∀ p ∈ g.processes,
      p.lastSeen = h.nowMs ∧
      ∃ before first block,
        snapshots (Collector.new osrelease) (rounds ++ [h]) = before ++ first :: block ∧
        p.firstSeen = first.atMs ∧
        (∀ s ∈ first :: block, lists g.uuid p.pid p.created s) ∧
        ∀ s ∈ before.getLast?, ¬ lists g.uuid p.pid p.created s := by
  intro g hg p hp
  obtain ⟨hfirst, hlast⟩ := seen_of_mem hg hp
  have hlists : lists g.uuid p.pid p.created ((after osrelease rounds).sample h).1 :=
    lists_iff.mpr ⟨g, hg, p, hp, rfl, rfl, rfl⟩
  have hstart : currentStart (lists g.uuid p.pid p.created)
      (snapshots (Collector.new osrelease) (rounds ++ [h])) =
      some ((currentStart (lists g.uuid p.pid p.created)
        (snapshots (Collector.new osrelease) rounds)).getD ((after osrelease rounds).sample h).1) := by
    rw [snapshots_snoc, currentStart_snoc, if_pos hlists]
  obtain ⟨before, block, hsplit, hblock, hbefore⟩ := currentStart_eq_some.mp hstart
  refine ⟨hlast, before, _, block, hsplit, ?_, hblock, ?_⟩
  · rw [hfirst, since_of_start (seen_after osrelease hclock g.uuid p) (atMs_currentStart hclock)]
    generalize currentStart (lists g.uuid p.pid p.created) _ = start
    cases start <;> rfl
  · intro s hs
    cases hls : before.getLast? <;> simp_all [endsInBlock]

def running (pids : List UInt32) (seconds : ℕ) : Host :=
  { bridged [] seconds with
    inventory := some (some [some ("GPU-8c2f", "NVIDIA A100")], none)
    card := fun _ => .done {
      parseFloat := fun s => (parseInt32 s).map (fun v => (v : ℚ))
      nvml := .ok {
        lookup := some 0
        name := "NVIDIA A100"
        pci := "0000:01:00.0"
        temperature := ⟨0, 40⟩
        power := ⟨0, 60000⟩
        util := ⟨0, 5⟩
        memory := ⟨0, 85899345920, 1024⟩
        ecc := none
        mig := false
        processes := some ⟨0, pids.map (fun pid => (pid, 512))⟩ }
      metrics := none
      apps := none } }

/-- A process that pauses counts as new when it is back. -/
theorem firstSeen_since_pause :
    ∃ g ∈ ((after "linux" [running [7] 5, running [] 10, running [7] 15]).sample
      (running [7] 20)).1.gpus, ∃ p ∈ g.processes, p.lastSeen = 20000 ∧ p.firstSeen = 15000 := by
  have hclock : ∀ r ∈ [running [7] 5, running [] 10, running [7] 15], r.nowMs ≠ 0 := by
    decide +kernel
  have hlisted : ∃ g ∈ ((after "linux" [running [7] 5, running [] 10, running [7] 15]).sample
      (running [7] 20)).1.gpus, ∃ p ∈ g.processes, p.firstSeen = 15000 := by
    decide +kernel
  obtain ⟨g, hg, p, hp, hfirst⟩ := hlisted
  exact ⟨g, hg, p, hp, (firstSeen_since "linux" _ _ hclock g hg p hp).1, hfirst⟩

end CardScope.Collect
