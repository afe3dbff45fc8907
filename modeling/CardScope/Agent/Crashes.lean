import CardScope.Agent.Effects

/-! # A client that is killed

The process may end at any step: what is in memory is gone, what is in the directory stays, and a
file that was being written is left in pieces under its temporary name. The count of dropped
samples is written to its own file after each eviction, so a kill between the two forgets one.
-/

namespace CardScope.Agent
open Library Model Hub

/-- A file that was being written when the process ended. -/
structure Torn where
  content : Snapshot
  size : ℕ
  modified : ℤ

/-- The system with the file of the count; `saving` is between a removal and the write of the
count. `kills` is history. -/
structure Fragile where
  system : State
  saved : ℤ
  saving : Bool
  kills : ℕ

namespace State

def kill (st : State) (torn : Option Torn) : State :=
  let queue := match st.sampling, torn with
    | .sampled s, some t => st.queue.put ⟨tempName (fileName s), t.content, t.size, t.modified⟩
    | _, _ => st.queue
  { st with queue := queue, sampling := .waiting, uploading := .waiting }

end State

namespace Fragile

/-- A step of one party; an eviction leaves its count to be saved. -/
def act (c : Config) (x : Fragile) (a : Action) : Fragile :=
  if x.saving && a.sampling then x
  else
    let system := Agent.act c x.system a
    { x with system := system, saving := x.saving || decide (system.dropped ≠ x.system.dropped) }

def save (x : Fragile) : Fragile :=
  if x.saving then { x with saved := x.system.dropped, saving := false } else x

def kill (x : Fragile) (boot : BootID) (torn : Option Torn) : Fragile :=
  if boot.text ∈ x.system.boots then x
  else
    { x with
      system := { x.system.kill torn with dropped := x.saved }.restart boot
      saving := false
      kills := x.kills + 1 }

end Fragile

/-- What can happen to the system. -/
inductive Incident where
  | act (a : Action)
  | save
  | kill (boot : BootID) (torn : Option Torn)

def incident (c : Config) (x : Fragile) : Incident → Fragile
  | .act a => x.act c a
  | .save => x.save
  | .kill boot torn => x.kill boot torn

def Setup.afterIncidents (c : Setup) (incidents : List Incident) : Fragile :=
  incidents.foldl (incident c.config) ⟨c.start, c.dropped, false, 0⟩

section Kills

variable {c : Setup} {st : State}

theorem Inv.tear (h : Inv c st) {f : File} {s : Snapshot} (hf : f.name = tempName (fileName s)) :
    Inv c { st with queue := st.queue.put f, sampling := .waiting } := by
  have hscan : Inv c { st with sampling := .waiting } := h.scan rfl (fun _ _ _ _ hs => by cases hs)
  exact { hscan with
    files := by
      intro g hg hsample
      rcases Table.mem_put.mp hg with rfl | ⟨hg, -⟩
      · rw [hf, isSample_tempName] at hsample
        cases hsample
      · exact h.files g hg hsample
    temp := fun _ hs => by cases hs
    kept := by
      intro t ht
      apply (h.kept t ht).imp_left
      rintro ⟨g, hg, hname, hcontent⟩
      refine ⟨g, Table.mem_put.mpr (.inr ⟨hg, ?_⟩), hname, hcontent⟩
      rw [hname, hf]
      exact ne_tempName t _
    gone := by
      intro e he
      obtain ⟨hmem, hgone⟩ := h.gone e he
      refine ⟨hmem, fun g hg => ?_⟩
      rcases Table.mem_put.mp hg with rfl | ⟨hg, -⟩
      · rw [hf]
        exact (ne_tempName _ _).symm
      · exact hgone g hg }

theorem Inv.kill (h : Inv c st) (torn : Option Torn) : Inv c (st.kill torn) := by
  have hscan : Inv c { st with sampling := .waiting } := h.scan rfl (fun _ _ _ _ hs => by cases hs)
  have hwhole : Inv c { st with sampling := .waiting, uploading := .waiting } := hscan.between rfl
  unfold State.kill
  cases hphase : st.sampling with
  | sampled s =>
    cases torn with
    | none => exact hwhole
    | some t =>
      have htorn := h.tear (f := ⟨tempName (fileName s), t.content, t.size, t.modified⟩) rfl
      have hstopped : Inv c { st with
          queue := st.queue.put ⟨tempName (fileName s), t.content, t.size, t.modified⟩
          sampling := .waiting
          uploading := .waiting } := htorn.between rfl
      exact hstopped
  | waiting | written | queued | measuring | pruning | evicting => exact hwhole

/-- A client that goes on with a count that is too low by `k` behaves like one that was set up with
a count too low by `k`. -/
theorem Inv.recount (h : Inv c st) {saved : ℤ} {k : ℕ} (hk : st.dropped = saved + k) :
    Inv { c with dropped := c.dropped - k } { st with dropped := saved } :=
  { h with
    total := by
      have htotal := h.total
      change saved = c.dropped - k + st.evicted.length
      omega }

end Kills

/-- What holds however often the client was killed. Of the true count at most one eviction is
missing for each kill, and what samples report was saved before. -/
structure Recoverable (c : Setup) (x : Fragile) : Prop where
  inv : ∃ missed : ℕ, missed ≤ x.kills ∧ Inv { c with dropped := c.dropped - missed } x.system
  saved : x.system.dropped = x.saved + if x.saving then 1 else 0
  reported : ∀ s ∈ x.system.taken, s.cacheDropped ≤ x.saved
  ordered : x.system.taken.Pairwise (fun s t => s.cacheDropped ≤ t.cacheDropped)

section Incidents

variable {c : Setup} {x : Fragile}

theorem recoverable_start (c : Setup) : Recoverable c ⟨c.start, c.dropped, false, 0⟩ where
  inv := ⟨0, le_rfl, by simpa using inv_start c⟩
  saved := (add_zero c.dropped).symm
  reported := fun _ hs => absurd hs List.not_mem_nil
  ordered := List.Pairwise.nil

theorem Recoverable.idle (h : Recoverable c x) (hidle : x.saving = false) :
    x.system.dropped = x.saved := by
  have hsaved := h.saved
  rwa [hidle, if_neg Bool.false_ne_true, add_zero] at hsaved

theorem Recoverable.act (h : Recoverable c x) (a : Action) : Recoverable c (x.act c.config a) := by
  unfold Fragile.act
  split_ifs with hblocked
  · exact h
  · obtain ⟨missed, hmissed, hinv⟩ := h.inv
    have hidle : a.sampling = true → x.saving = false := by
      intro ha
      simpa [ha] using hblocked
    refine ⟨⟨missed, hmissed, hinv.act a⟩, ?_, ?_, ?_⟩
    · change (Agent.act c.config x.system a).dropped = x.saved + if x.saving ||
        decide ((Agent.act c.config x.system a).dropped ≠ x.system.dropped) then 1 else 0
      rcases dropped_act c.config x.system a with heq | ⟨ha, heq⟩
      · simp [heq, h.saved]
      · simp [heq, h.idle (hidle ha)]
    · intro s hs
      change s ∈ (Agent.act c.config x.system a).taken at hs
      rcases taken_act c.config x.system a with heq | ⟨ha, t, heq, ht⟩
      · rw [heq] at hs
        exact h.reported s hs
      · rw [heq, List.mem_append, List.mem_singleton] at hs
        rcases hs with hs | rfl
        · exact h.reported s hs
        · exact (ht.trans (h.idle (hidle ha))).le
    · change (Agent.act c.config x.system a).taken.Pairwise _
      rcases taken_act c.config x.system a with heq | ⟨ha, t, heq, ht⟩
      · rw [heq]
        exact h.ordered
      · rw [heq, List.pairwise_append]
        refine ⟨h.ordered, List.pairwise_singleton _ _, ?_⟩
        intro s hs t' ht'
        obtain rfl := List.mem_singleton.mp ht'
        rw [ht, h.idle (hidle ha)]
        exact h.reported s hs

theorem Recoverable.save (h : Recoverable c x) : Recoverable c x.save := by
  unfold Fragile.save
  split_ifs with hsaving
  · refine ⟨h.inv, (add_zero x.system.dropped).symm, ?_, h.ordered⟩
    intro s hs
    have hle := h.reported s hs
    have hsaved := h.saved
    rw [hsaving, if_pos rfl] at hsaved
    change s.cacheDropped ≤ x.system.dropped
    omega
  · exact h

/-- At most the eviction whose count was on its way is forgotten. -/
theorem Recoverable.forgotten (h : Recoverable c x) :
    ∃ k : ℕ, k ≤ 1 ∧ x.system.dropped = x.saved + k := by
  have hsaved := h.saved
  cases hsaving : x.saving with
  | true =>
    rw [hsaving, if_pos rfl] at hsaved
    exact ⟨1, le_rfl, hsaved⟩
  | false => exact ⟨0, zero_le_one, by simpa using h.idle hsaving⟩

theorem Recoverable.kill (h : Recoverable c x) (boot : BootID) (torn : Option Torn) :
    Recoverable c (x.kill boot torn) := by
  unfold Fragile.kill
  split_ifs with hboot
  · exact h
  · obtain ⟨missed, hmissed, hinv⟩ := h.inv
    obtain ⟨k, hk, hdropped⟩ := h.forgotten
    have hkept := footprint_restart { x.system.kill torn with dropped := x.saved } boot
    have hcount : ({ x.system.kill torn with dropped := x.saved }.restart boot).dropped = x.saved :=
      congrArg Footprint.dropped hkept
    have htaken : ({ x.system.kill torn with dropped := x.saved }.restart boot).taken =
        x.system.produced :=
      (congrArg Footprint.taken hkept).trans (List.append_nil _)
    have hreported : ∀ s ∈ x.system.produced, s.cacheDropped ≤ x.saved :=
      fun s hs => h.reported s (List.mem_append_left _ hs)
    refine ⟨⟨missed + k, ?_, ?_⟩, ?_, ?_, ?_⟩
    · change missed + k ≤ x.kills + 1
      omega
    · have hsetup : ({ c with dropped := c.dropped - missed - k } : Setup) =
          { c with dropped := c.dropped - (missed + k : ℕ) } := by
        congr 1
        push_cast
        ring
      rw [← hsetup]
      exact ((hinv.kill torn).recount hdropped).restart boot
    · exact hcount.trans (add_zero x.saved).symm
    · intro s hs
      change s ∈ ({ x.system.kill torn with dropped := x.saved }.restart boot).taken at hs
      rw [htaken] at hs
      exact hreported s hs
    · change ({ x.system.kill torn with dropped := x.saved }.restart boot).taken.Pairwise _
      rw [htaken]
      exact (List.pairwise_append.mp h.ordered).1

theorem recoverable_after (c : Setup) (incidents : List Incident) :
    Recoverable c (c.afterIncidents incidents) := by
  apply foldl_invariant (incident c.config) (fun _ x => Recoverable c x)
  · intro e rest x h
    cases e with
    | act a => exact h.act a
    | save => exact h.save
    | kill boot torn => exact h.kill boot torn
  · exact recoverable_start c

end Incidents

/-- However often the client is killed, no sample is lost untold or stored twice, no file is read in
pieces, and the count misses at most one eviction for each kill. -/
theorem survives_kills (c : Setup) (incidents : List Incident) :
    (∀ s ∈ (c.afterIncidents incidents).system.produced,
      Queued (c.afterIncidents incidents).system s ∨
        Committed (c.afterIncidents incidents).system s ∨
        Counted (c.afterIncidents incidents).system s) ∧
    (∀ f ∈ (c.afterIncidents incidents).system.queue, isSample f.name = true →
      f.snapshot ∈ (c.afterIncidents incidents).system.produced ∧ f.name = fileName f.snapshot) ∧
    (Steady (c.afterIncidents incidents).system.log →
      ((uploads c.config.nodeID (c.afterIncidents incidents).system.log).map
        Snapshot.identity).Nodup) ∧
    ((c.afterIncidents incidents).system.dropped ≤
        c.dropped + (c.afterIncidents incidents).system.evicted.length ∧
      c.dropped + (c.afterIncidents incidents).system.evicted.length ≤
        (c.afterIncidents incidents).system.dropped + (c.afterIncidents incidents).kills) ∧
    (c.afterIncidents incidents).system.produced.Pairwise
      (fun s t => s.cacheDropped ≤ t.cacheDropped) := by
  have h := recoverable_after c incidents
  obtain ⟨missed, hmissed, hinv⟩ := h.inv
  have htotal := hinv.total
  refine ⟨hinv.kept, hinv.files, hinv.once, ⟨?_, ?_⟩, (List.pairwise_append.mp h.ordered).1⟩
  · simp only at htotal
    omega
  · simp only at htotal
    omega

end CardScope.Agent
