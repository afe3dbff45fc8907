import CardScope.Agent.Invariants

/-! # What a step of the system does

A step takes a sample, evicts a file, brings a transaction of the hub, or does none of it. -/

namespace CardScope.Agent
open Library Model Hub

def Action.sampling : Action → Bool
  | .sample _ | .writeTemp _ _ | .rename | .listFiles _ | .measure | .examine _ | .evict _
  | .restart _ => true
  | _ => false

/-- The samples in the order in which they were taken, as far as they are not lost. -/
def State.taken (st : State) : List Snapshot := st.produced ++ st.pending.toList

structure Footprint where
  taken : List Snapshot
  dropped : ℤ
  evicted : List Eviction
  log : List Event

def State.footprint (st : State) : Footprint := ⟨st.taken, st.dropped, st.evicted, st.log⟩

inductive Effect (c : Config) (st : State) (a : Action) : Prop
  | nothing (heq : (act c st a).footprint = st.footprint)
  | took (collected s : Snapshot) (ha : a = .sample collected)
      (hs : (act c st a).sampling = .sampled s) (hcount : s.cacheDropped = st.dropped)
      (heq : (act c st a).footprint = { st.footprint with taken := st.taken ++ [s] })
  | evicted (removable : Bool) (e : Eviction) (ha : a = .evict removable)
      (heq : (act c st a).footprint =
        { st.footprint with dropped := st.dropped + 1, evicted := st.evicted ++ [e] })
  | stored (now : ℤ) (u : Snapshot) (hvalid : validate now u = .ok ())
      (heq : (act c st a).footprint = { st.footprint with log := st.log ++ [.ingest now u] })
  | cleaned (now : ℤ)
      (heq : (act c st a).footprint = { st.footprint with log := st.log ++ [.prune now] })

variable {c : Config} {st : State}

theorem footprint_transact (st : State) (now : ℤ) (u : Snapshot) :
    (st.transact now u).2.footprint = st.footprint ∨ validate now u = .ok () ∧
      (st.transact now u).2.footprint = { st.footprint with log := st.log ++ [.ingest now u] } := by
  unfold State.transact
  cases hv : validate now u with
  | error message =>
    have hfail : ingest now st.hub u = .error (.invalid message) := by
      unfold ingest
      rw [hv]
    rw [hfail]
    exact .inl rfl
  | ok _ =>
    cases ingest now st.hub u with
    | error e => exact .inl rfl
    | ok hub =>
      by_cases hk : st.hub.samples.HasKey (sampleRow u).key
      · left
        simp only [if_pos hk]
        rfl
      · right
        simp only [if_neg hk]
        exact ⟨trivial, rfl⟩

theorem footprint_restart (st : State) (boot : BootID) :
    (st.restart boot).footprint = st.footprint := by
  unfold State.restart
  cases h : st.sampling with
  | waiting =>
    cases st.uploading with
    | waiting | batch =>
      simp only
      split_ifs
      · rfl
      · simp [State.footprint, State.taken, State.pending, h]
    | loaded | posted | accepted => rfl
  | sampled | written | queued | measuring | pruning | evicting => rfl

theorem effect_act (c : Config) (st : State) (a : Action) : Effect c st a := by
  have htransact : ∀ now u, (act c st a).footprint = (st.transact now u).2.footprint →
      Effect c st a := by
    intro now u heq
    rcases footprint_transact st now u with hsame | ⟨hvalid, hlog⟩
    · exact .nothing (heq.trans hsame)
    · exact .stored now u hvalid (heq.trans hlog)
  cases a with
  | sample collected =>
    cases h : st.sampling with
    | waiting =>
      exact .took collected _ rfl (by simp [act, State.sample, h]; rfl) rfl
        (by simp [act, State.sample, State.footprint, State.taken, State.pending, h])
    | sampled | written | queued | measuring | pruning | evicting =>
      exact .nothing (by simp [act, State.sample, h])
  | evict removable =>
    cases h : st.sampling with
    | evicting name fileSize rest size =>
      cases hf : (st.queue.find? name).filter (fun _ => removable) with
      | some f =>
        refine .evicted removable ⟨f.snapshot, name ∈ st.read⟩ rfl ?_
        simp [act, State.evict, State.footprint, State.taken, State.pending, h, hf]
      | none =>
        refine .nothing ?_
        simp [act, State.evict, State.footprint, State.taken, State.pending, h, hf]
    | waiting | sampled | written | queued | measuring | pruning =>
      exact .nothing (by simp [act, State.evict, h])
  | serve id now =>
    cases h : st.requests[id]? with
    | none => exact .nothing (by simp [act, State.serve, h])
    | some u => exact htransact now u (by simp only [act, State.serve, h]; rfl)
  | upload now u =>
    by_cases h : u.nodeID = c.nodeID
    · exact .nothing (by simp [act, State.upload, h])
    · exact htransact now u (by simp [act, State.upload, h])
  | cleanup now => exact .cleaned now rfl
  | rename =>
    refine .nothing ?_
    cases h : st.sampling with
    | written s =>
      cases hf : st.queue.find? (tempName (fileName s)) <;>
        simp [act, State.rename, State.footprint, State.taken, State.pending, h, hf]
    | waiting | sampled | queued | measuring | pruning | evicting => simp [act, State.rename, h]
  | writeTemp size now =>
    refine .nothing ?_
    cases h : st.sampling <;>
      simp [act, State.writeTemp, State.footprint, State.taken, State.pending, h]
  | listFiles readable =>
    refine .nothing ?_
    cases h : st.sampling <;>
      simp [act, State.listFiles, State.footprint, State.taken, State.pending, h]
  | measure =>
    refine .nothing ?_
    cases h : st.sampling with
    | measuring rest files size =>
      cases rest <;> simp [act, State.measure, State.footprint, State.taken, State.pending, h]
    | waiting | sampled | written | queued | pruning | evicting => simp [act, State.measure, h]
  | examine now =>
    refine .nothing ?_
    cases h : st.sampling with
    | pruning rest size =>
      cases rest with
      | nil => simp [act, State.examine, State.footprint, State.taken, State.pending, h]
      | cons name rest =>
        simp only [act, State.examine, h]
        split
        · simp [State.footprint, State.taken, State.pending, h]
        · split
          · simp [State.footprint, State.taken, State.pending, h]
          · split <;> simp [State.footprint, State.taken, State.pending, h]
    | waiting | sampled | written | queued | measuring | evicting => simp [act, State.examine, h]
  | restart boot => exact .nothing (footprint_restart st boot)
  | startBatch =>
    refine .nothing ?_
    simp only [act, State.startBatch]
    split <;> rfl
  | readFile readable =>
    refine .nothing ?_
    simp only [act, State.readFile]
    split
    · split
      · rfl
      · split <;> rfl
    · rfl
    · rfl
  | post now =>
    refine .nothing ?_
    simp only [act, State.post]
    split <;> rfl
  | receive ok =>
    refine .nothing ?_
    simp only [act, State.receive]
    split
    · split
      · rfl
      · split <;> rfl
    · rfl
  | giveUp =>
    refine .nothing ?_
    simp only [act, State.giveUp]
    split <;> rfl
  | remove removable =>
    refine .nothing ?_
    simp only [act, State.remove]
    split <;> rfl
  | refuse id =>
    refine .nothing ?_
    simp only [act, State.refuse]
    split <;> rfl

/-- A step takes at most one sample, and that one reports the present count. -/
theorem taken_act (c : Config) (st : State) (a : Action) : (act c st a).taken = st.taken ∨
    a.sampling = true ∧
      ∃ s, (act c st a).taken = st.taken ++ [s] ∧ s.cacheDropped = st.dropped := by
  cases effect_act c st a with
  | took collected s ha _ hcount heq =>
    exact .inr ⟨by rw [ha]; rfl, s, congrArg Footprint.taken heq, hcount⟩
  | nothing heq | evicted _ _ _ heq | stored _ _ _ heq | cleaned _ heq =>
    exact .inl (congrArg Footprint.taken heq)

/-- The count changes with an eviction only, by one. -/
theorem dropped_act (c : Config) (st : State) (a : Action) : (act c st a).dropped = st.dropped ∨
    a.sampling = true ∧ (act c st a).dropped = st.dropped + 1 := by
  cases effect_act c st a with
  | evicted removable e ha heq =>
    exact .inr ⟨by rw [ha]; rfl, congrArg Footprint.dropped heq⟩
  | nothing heq | took _ _ _ _ _ heq | stored _ _ _ heq | cleaned _ heq =>
    exact .inl (congrArg Footprint.dropped heq)

theorem act_log (c : Config) (st : State) (a : Action) :
    (act c st a).log = st.log ∨ (∃ now, (act c st a).log = st.log ++ [.prune now]) ∨
      ∃ now u, validate now u = .ok () ∧ (act c st a).log = st.log ++ [.ingest now u] := by
  cases effect_act c st a with
  | stored now u hvalid heq => exact .inr (.inr ⟨now, u, hvalid, congrArg Footprint.log heq⟩)
  | cleaned now heq => exact .inr (.inl ⟨now, congrArg Footprint.log heq⟩)
  | nothing heq | took _ _ _ _ _ heq | evicted _ _ _ heq =>
    exact .inl (congrArg Footprint.log heq)

/-- Each sample that was taken reports the evictions up to the step that took it. -/
theorem count_at_sampling (c : Setup) (actions : List Action) :
    ∀ s ∈ (c.after actions).taken, ∃ early collected late,
      actions = early ++ .sample collected :: late ∧
      (c.after (early ++ [.sample collected])).sampling = .sampled s ∧
      s.cacheDropped = c.dropped + (c.after early).evicted.length := by
  induction actions using List.reverseRecOn with
  | nil => exact fun s hs => absurd hs List.not_mem_nil
  | append_singleton actions a ih =>
    have hafter : c.after (actions ++ [a]) = act c.config (c.after actions) a := by
      rw [Setup.after, List.foldl_append]
      rfl
    have hkept : ∀ s ∈ (c.after actions).taken, ∃ early collected late,
        actions ++ [a] = early ++ .sample collected :: late ∧
        (c.after (early ++ [.sample collected])).sampling = .sampled s ∧
        s.cacheDropped = c.dropped + (c.after early).evicted.length := by
      intro s hs
      obtain ⟨early, collected, late, rfl, hsampled, hcount⟩ := ih s hs
      exact ⟨early, collected, late ++ [a], by simp, hsampled, hcount⟩
    intro s hs
    rw [hafter] at hs
    cases effect_act c.config (c.after actions) a with
    | took collected t ha hsampled hcount heq =>
      have hgrown : (act c.config (c.after actions) a).taken = (c.after actions).taken ++ [t] :=
        congrArg Footprint.taken heq
      rw [hgrown, List.mem_append, List.mem_singleton] at hs
      rcases hs with hs | rfl
      · exact hkept s hs
      · rw [← hafter, ha] at hsampled
        exact ⟨actions, collected, [], by rw [ha], hsampled,
          hcount.trans (inv_after c actions).total⟩
    | nothing heq | evicted _ _ _ heq | stored _ _ _ heq | cleaned _ heq =>
      have hsame : (act c.config (c.after actions) a).taken = (c.after actions).taken :=
        congrArg Footprint.taken heq
      rw [hsame] at hs
      exact hkept s hs

end CardScope.Agent
