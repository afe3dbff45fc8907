import CardScope.Agent.Effects
import CardScope.Hub.Api

/-! # Delivery and gaps

What becomes of a sample, over every interleaving of the two loops, the hub and the network: it
waits in the queue, is stored by the hub, or is counted as dropped.
-/

namespace CardScope.Agent
open Library Model Hub

/-- The handler of uploads answers below 400 after a transaction that committed, and otherwise
leaves the tables as they are. -/
theorem snapshots_answer (p : Platform) (d : Draw) (h : HubState) (r : Request) :
    ((Api.snapshots p d h r).1.status = 200 ∧
      ∃ s, ingest d.now h.db s = .ok (Api.snapshots p d h r).2.db) ∨
    400 ≤ (Api.snapshots p d h r).1.status ∧ (Api.snapshots p d h r).2.db = h.db := by
  unfold Api.snapshots
  cases authenticate p h.db (trimPrefix r.authorization "Bearer ") with
  | none => exact .inr ⟨by simp [Api.fail, Api.respond], rfl⟩
  | some n =>
    simp only
    split_ifs
    · exact .inr ⟨by simp [Api.fail, Api.respond], rfl⟩
    · cases (decode p.json.snapshot r (4 * 2 ^ 20)).filter (fun s => s.nodeID = n.id) with
      | none => exact .inr ⟨by simp [Api.fail, Api.respond], rfl⟩
      | some s =>
        simp only [Api.countRequest]
        cases hs : ingest d.now h.db s with
        | ok db => exact .inl ⟨rfl, s, hs⟩
        | error e =>
          refine .inr ?_
          cases e with
          | invalid message => exact ⟨by simp [Api.fail, Api.respond], rfl⟩
          | noRows => exact ⟨by simp [Api.fail, Api.respond], rfl⟩
          | constraint => exact ⟨by simp [Api.fail, Api.respond], rfl⟩

section Fixtures

/-- A client of the node `n` that has not dropped anything. -/
def testSetup : Setup where
  config := ⟨"n", 5⟩
  nodes := Hub.node "n"
  boot := ⟨"0f", by decide⟩
  dropped := 0

/-- One round of the sampling loop that puts a sample into the queue. -/
def enqueue (time : ℤ) : List Action :=
  [.sample (Hub.sample "n" 0 time), .writeTemp 1000 time, .rename]

/-- One round of the upload loop up to the request and the transaction of the hub. -/
def submit (id : ℕ) (now hubNow : ℤ) : List Action :=
  [.startBatch, .readFile true, .post now, .serve id hubNow]

/-- The response of the first post is lost, the second post is answered. -/
def retried : List Action :=
  enqueue 1700000041000 ++ submit 0 1700000042000 1700000042000 ++ [.giveUp] ++
    submit 1 1700000051000 1700000051000 ++ [.receive true, .remove true]

/-- The same, but between the posts the clock of the hub is wrong by 49 hours, and a cleanup runs. -/
def retriedAfterJump : List Action :=
  enqueue 1700000041000 ++ submit 0 1700000042000 1700000042000 ++
    [.giveUp, .cleanup (1700000042000 + 49 * 3600000)] ++
    submit 1 1700000051000 1700000051000 ++ [.receive true, .remove true]

/-- The hub was out of reach for 24 hours. While the response to the oldest sample is on its way,
the sampling loop finds the sample too old. -/
def overtaken : List Action :=
  enqueue 1700000041000 ++ [.listFiles true, .measure, .measure, .examine 1700000041000,
    .examine 1700000041000] ++ submit 0 1700086442000 1700086442000 ++
    enqueue 1700086442000 ++ [.listFiles true, .measure, .measure, .measure, .examine 1700086442000,
      .evict true, .receive true, .remove true]

end Fixtures

/-- In every reachable state a queued sample is still there, committed or counted as dropped, and
while the clock of the hub is steady it holds each sample once. -/
theorem delivered (c : Setup) (actions : List Action) :
    (∀ s ∈ (c.after actions).produced, Queued (c.after actions) s ∨
      Committed (c.after actions) s ∨ Counted (c.after actions) s) ∧
    (c.after actions).dropped = c.dropped + (c.after actions).evicted.length ∧
    ((c.after actions).evicted.map (fun e => e.snapshot.identity)).Nodup ∧
    (c.after actions).hub = run (freshStore c.nodes) (c.after actions).log ∧
    (∀ u ∈ uploads c.config.nodeID (c.after actions).log,
      ∃ s ∈ (c.after actions).produced, ∃ late, u = { s with backfill := late }) ∧
    (Steady (c.after actions).log →
      ((uploads c.config.nodeID (c.after actions).log).map Snapshot.identity).Nodup) := by
  have h := inv_after c actions
  refine ⟨h.kept, h.total, h.counted, h.logged.store, fun u hu => ?_, h.once⟩
  obtain ⟨now, hlog, hn⟩ := mem_uploads.mp hu
  obtain ⟨s, hs, late, heq, -⟩ := h.requests u (h.log now u hlog hn)
  exact ⟨s, hs, late, heq⟩

/-- A sample that was committed, posted again and accepted. -/
theorem delivered_retried : (testSetup.after retried).requests.length = 2 ∧
    (testSetup.after retried).queue.rows = [] ∧
    ((uploads "n" (testSetup.after retried).log).map Snapshot.identity).Nodup :=
  ⟨by decide +kernel, by decide +kernel,
    (delivered testSetup retried).2.2.2.2.2 (by decide +kernel)⟩

/-- A cleanup at a wrong time forgets the sample, and the second post is committed as well. -/
theorem committed_twice :
    ¬ ((uploads "n" (testSetup.after retriedAfterJump).log).map Snapshot.identity).Nodup := by
  decide +kernel

/-- Each sample reports the number of the evictions before the step that took it, and each eviction
counts another sample, stored only if its file had been read before. -/
theorem dropped_counts (c : Setup) (actions : List Action) :
    (c.after actions).dropped = c.dropped + (c.after actions).evicted.length ∧
    (∀ s ∈ (c.after actions).produced, ∃ early collected late,
      actions = early ++ .sample collected :: late ∧
      (c.after (early ++ [.sample collected])).sampling = .sampled s ∧
      s.cacheDropped = c.dropped + (c.after early).evicted.length) ∧
    ((c.after actions).evicted.map (fun e => e.snapshot.identity)).Nodup ∧
    ∀ e ∈ (c.after actions).evicted, e.snapshot ∈ (c.after actions).produced ∧
      ¬ Queued (c.after actions) e.snapshot ∧
      (Committed (c.after actions) e.snapshot → e.read = true) := by
  have h := inv_after c actions
  refine ⟨h.total, fun s hs => count_at_sampling c actions s (List.mem_append_left _ hs), h.counted,
    fun e he => ?_⟩
  obtain ⟨hmem, hgone⟩ := h.gone e he
  refine ⟨hmem, fun ⟨f, hf, hname, _⟩ => hgone f hf hname, fun ⟨now, late, hlog⟩ => ?_⟩
  obtain ⟨s, hs, late', heq, hread⟩ := h.requests _ (h.log now _ hlog (h.produced _ hmem).1)
  have hid : e.snapshot.identity = s.identity := by
    simpa only [Snapshot.identity] using congrArg Snapshot.identity heq
  obtain rfl := h.eq_of_identity hmem hs hid
  by_contra hunread
  exact h.unread e he (by simpa using hunread) hread

/-- The sample is counted while its upload is under way, and the hub has it. -/
theorem counted_and_committed : ∃ s, Counted (testSetup.after overtaken) s ∧
    Committed (testSetup.after overtaken) s := by
  let s := { Hub.sample "n" 1 1700000041000 with bootID := "0f" }
  refine ⟨s, ⟨⟨s, true⟩, by decide +kernel, rfl⟩, ?_⟩
  have hstored : { s with backfill := true } ∈ uploads "n" (testSetup.after overtaken).log := by
    decide +kernel
  obtain ⟨now, hlog, -⟩ := mem_uploads.mp hstored
  exact ⟨now, true, hlog⟩

end CardScope.Agent
