import CardScope.Agent.System

/-! # Batches of uploads

One batch while no other loop touches the directory: the newest file first, then the others from the
oldest on, until a file is refused. The hub and the clock are a parameter.
-/

namespace CardScope.Agent
open Library Model Hub

/-- What a batch meets outside of the client: a clock, and a hub that answers below 400 or not. -/
structure Remote (σ : Type*) where
  clock : σ → ℤ
  post : σ → Snapshot → Bool × σ

def Config.stamp (c : Config) (now : ℤ) (s : Snapshot) : Snapshot :=
  { s with backfill := now - s.atMs > c.interval * 2000 }

section

variable {σ : Type*} (c : Config) (r : Remote σ)

/-- The loop of `uploadBatch`. Files can be read and removed; the first failure ends the batch. -/
def sendFiles : σ → Queue → List String → σ × Queue
  | w, q, [] => (w, q)
  | w, q, name :: rest =>
    if !isSample name then sendFiles w q rest
    else match q.find? name with
      | none => sendFiles w q rest
      | some f =>
        let answer := r.post w (c.stamp (r.clock w) f.snapshot)
        if answer.1 then sendFiles answer.2 (q.keep (fun g => g.name ≠ name)) rest
        else (answer.2, q)

def uploadBatch (w : σ) (q : Queue) : σ × Queue := sendFiles c r w q (uploadOrder (readDir q))

end

section Files

variable {σ : Type*} {c : Config} {r : Remote σ} {w : σ} {q : Queue} {name : String}
  {rest : List String}

theorem sendFiles_other (h : ¬ isSample name = true) :
    sendFiles c r w q (name :: rest) = sendFiles c r w q rest := by
  rw [sendFiles, if_pos (by simpa using h)]

theorem sendFiles_gone (h : isSample name = true) (hf : q.find? name = none) :
    sendFiles c r w q (name :: rest) = sendFiles c r w q rest := by
  rw [sendFiles, if_neg (by simp [h]), hf]

theorem sendFiles_sample {f : File} (h : isSample name = true) (hf : q.find? name = some f) :
    sendFiles c r w q (name :: rest) =
      let answer := r.post w (c.stamp (r.clock w) f.snapshot)
      if answer.1 then sendFiles c r answer.2 (q.keep (fun g => g.name ≠ name)) rest
      else (answer.2, q) := by
  rw [sendFiles, if_neg (by simp [h]), hf]

theorem find?_keep_other {name' : String} (h : name' ≠ name) :
    (q.keep (fun g => g.name ≠ name)).find? name' = q.find? name' :=
  Table.find?_only (q := fun k => k ≠ name) (decide_eq_true h)

end Files

/-! ## The directory -/

section Directory

variable {q : Queue} {name : String} {names : List String}

theorem mem_readDir : name ∈ readDir q ↔ ∃ f ∈ q, f.name = name := by
  rw [readDir, List.mem_insertionSort, List.mem_map]
  rfl

theorem nodup_readDir (q : Queue) : (readDir q).Nodup :=
  (List.perm_insertionSort _ _).nodup_iff.mpr q.nodup

theorem length_readDir (q : Queue) : (readDir q).length = q.rows.length := by
  rw [readDir, List.length_insertionSort, List.length_map]

theorem sorted_readDir (q : Queue) : (readDir q).Pairwise (· ≤ ·) :=
  List.pairwise_insertionSort (· ≤ ·) _

theorem readDir_keep (q : Queue) (p : String → Bool) :
    readDir (q.keep (fun f => p f.name)) = (readDir q).filter p := by
  have hperm : (readDir (q.keep (fun f => p f.name))).Perm ((readDir q).filter p) := by
    apply (List.perm_insertionSort _ _).trans
    refine List.Perm.trans ?_ ((List.perm_insertionSort (· ≤ ·) (q.rows.map File.name)).symm.filter p)
    rw [List.filter_map]
    rfl
  exact hperm.eq_of_pairwise' (sorted_readDir _) ((sorted_readDir q).filter p)

theorem keep_keep (q : Queue) (p p' : File → Bool) :
    (q.keep p).keep p' = q.keep (fun f => p f && p' f) := by
  apply Table.ext_rows
  change (q.rows.filter p).filter p' = q.rows.filter (fun f => p f && p' f)
  rw [List.filter_filter]
  exact List.filter_congr (fun f _ => Bool.and_comm _ _)

theorem keep_cons (q : Queue) (name : String) (rest : List String) :
    (q.keep (fun f => f.name ≠ name)).keep (fun f => f.name ∉ rest) =
      q.keep (fun f => f.name ∉ name :: rest) := by
  rw [keep_keep]
  congr 1
  ext f
  simp [not_or]

theorem keep_nil (q : Queue) : q.keep (fun f => f.name ∉ []) = q := by
  apply Table.ext_rows
  exact List.filter_eq_self.mpr (fun f _ => by simp)

theorem length_uploadOrder (names : List String) :
    (uploadOrder names).length = min 20 names.length := by
  induction names using List.reverseRecOn with
  | nil => rfl
  | append_singleton front newest _ =>
    have hlength : (uploadOrder (front ++ [newest])).length = min 19 front.length + 1 := by
      simp [uploadOrder]
    rw [hlength, List.length_append, List.length_singleton]
    omega

theorem subperm_uploadOrder (names : List String) : (uploadOrder names).Subperm names := by
  refine (List.take_sublist _ _).subperm.trans (List.Perm.subperm ?_)
  induction names using List.reverseRecOn with
  | nil => rfl
  | append_singleton front newest _ => simpa using (List.perm_append_singleton newest front).symm

theorem mem_of_uploadOrder (h : name ∈ uploadOrder names) : name ∈ names :=
  (subperm_uploadOrder names).subset h

theorem nodup_uploadOrder (h : names.Nodup) : (uploadOrder names).Nodup := by
  obtain ⟨l, hperm, hsub⟩ := subperm_uploadOrder names
  exact hperm.nodup_iff.mp (h.sublist hsub)

end Directory

/-! ## What a batch removes -/

section Answers

variable {σ : Type*} {c : Config} {r : Remote σ} {q : Queue} {names : List String}

/-- When the answers depend on the files only, the batch removes the files in front of the first
that is refused. -/
theorem sendFiles_of_answers {good : String → Bool} (w : σ) (hnodup : names.Nodup)
    (hfiles : ∀ name ∈ names, isSample name = true ∧ ∃ f, q.find? name = some f ∧
      ∀ w now, (r.post w (c.stamp now f.snapshot)).1 = good name) :
    (sendFiles c r w q names).2 = q.keep (fun f => f.name ∉ names.takeWhile good) := by
  induction names generalizing w q with
  | nil => exact (keep_nil q).symm
  | cons name rest ih =>
    obtain ⟨hsample, f, hf, hgood⟩ := hfiles name List.mem_cons_self
    rw [List.nodup_cons] at hnodup
    rw [sendFiles_sample hsample hf]
    simp only [hgood]
    by_cases hok : good name = true
    · rw [if_pos hok, List.takeWhile_cons_of_pos hok, ← keep_cons]
      apply ih _ hnodup.2
      intro name' hname'
      obtain ⟨hsample', f', hf', hgood'⟩ := hfiles name' (List.mem_cons_of_mem _ hname')
      have hne : name' ≠ name := by
        rintro rfl
        exact hnodup.1 hname'
      exact ⟨hsample', f', (find?_keep_other hne).trans hf', hgood'⟩
    · rw [if_neg hok, List.takeWhile_cons_of_neg hok, keep_nil]

end Answers

/-! ## Batches in the system -/

section System

variable {c : Config} (now hubNow : ℕ → ℤ)

/-- The hub of the system takes each request at once. The readings of the clocks are those at each
request. -/
def atOnce (now hubNow : ℕ → ℤ) : Remote State where
  clock st := now st.requests.length
  post st u :=
    let sent := { st with requests := st.requests ++ [u] }
    ((sent.transact (hubNow st.requests.length) u).1,
      sent.serve st.requests.length (hubNow st.requests.length))

def State.uploads (st : State) (q : Queue) (uploading : Uploading) (read : List String) : State :=
  { st with queue := q, uploading := uploading, read := read }

theorem transact_uploads (st : State) (q : Queue) (uploading : Uploading) (read : List String)
    (at' : ℤ) (u : Snapshot) : (st.uploads q uploading read).transact at' u =
      ((st.transact at' u).1, (st.transact at' u).2.uploads q uploading read) := by
  unfold State.transact State.uploads
  cases ingest at' st.hub u <;> rfl

theorem serve_uploads (st : State) (q : Queue) (uploading : Uploading) (read : List String)
    (id : ℕ) (at' : ℤ) : (st.uploads q uploading read).serve id at' =
      (st.serve id at').uploads q uploading read := by
  have hrequests : (st.uploads q uploading read).requests = st.requests := rfl
  unfold State.serve
  rw [hrequests]
  cases st.requests[id]? with
  | none => rfl
  | some u =>
    simp only [transact_uploads]
    rfl

theorem mem_responses_post (st : State) (u : Snapshot) :
    (st.requests.length, ((atOnce now hubNow).post st u).1) ∈
      ((atOnce now hubNow).post st u).2.responses := by
  have hlast : (st.requests ++ [u])[st.requests.length]? = some u := by simp
  simp only [atOnce, State.serve, hlast]
  exact List.mem_cons_self

theorem receive_uploads {st : State} {q : Queue} {name : String} {s : Snapshot}
    {rest read : List String} {id : ℕ} {ok : Bool} (h : (id, ok) ∈ st.responses) :
    (st.uploads q (.posted name s rest id) read).receive ok =
      st.uploads q (if ok then .accepted name s rest else .waiting) read := by
  simp only [State.receive, State.uploads, h, not_true_eq_false, if_false]
  cases ok <;> rfl

/-- Some steps lead from one state to the other. -/
def Leads (c : Config) (st st' : State) : Prop :=
  ∃ actions : List Action, actions.foldl (act c) st = st'

theorem leads_refl (st : State) : Leads c st st := ⟨[], rfl⟩

theorem Leads.step {st st' st'' : State} (a : Action) (h : act c st a = st')
    (hleads : Leads c st' st'') : Leads c st st'' := by
  obtain ⟨actions, hactions⟩ := hleads
  exact ⟨a :: actions, by rw [List.foldl_cons, h, hactions]⟩

theorem leads_answer {q : Queue} {name : String} {f : File} {st : State} (w : State)
    (rest read : List String) (hsample : isSample name = true) (hf : q.find? name = some f)
    (hleads :
      let answer := (atOnce now hubNow).post w (c.stamp (now w.requests.length) f.snapshot)
      Leads c (answer.2.uploads q (if answer.1 then .accepted name f.snapshot rest else .waiting)
        (name :: read)) st) : Leads c (w.uploads q (.batch (name :: rest)) read) st := by
  have hread : act c (w.uploads q (.batch (name :: rest)) read) (.readFile true) =
      w.uploads q (.loaded name f.snapshot rest) (name :: read) := by
    simp only [act, State.readFile, State.uploads, hsample, hf, Bool.not_true, Bool.false_eq_true,
      if_false]
    rfl
  let sent : State := { w with requests := w.requests ++ [c.stamp (now w.requests.length) f.snapshot] }
  have hpost : act c (w.uploads q (.loaded name f.snapshot rest) (name :: read))
      (.post (now w.requests.length)) =
        sent.uploads q (.posted name f.snapshot rest w.requests.length) (name :: read) := rfl
  let ok := ((atOnce now hubNow).post w (c.stamp (now w.requests.length) f.snapshot)).1
  have hmem := mem_responses_post now hubNow w (c.stamp (now w.requests.length) f.snapshot)
  exact .step _ hread (.step _ hpost (.step (.serve w.requests.length (hubNow w.requests.length))
    (serve_uploads _ _ _ _ _ _) (.step (.receive ok) (receive_uploads hmem) hleads)))

/-- A batch that nothing disturbs is a run of the system. -/
theorem sendFiles_leads (w : State) (q : Queue) (names read : List String) :
    ∃ read', Leads c (w.uploads q (.batch names) read)
      ((sendFiles c (atOnce now hubNow) w q names).1.uploads
        (sendFiles c (atOnce now hubNow) w q names).2 .waiting read') := by
  induction names generalizing w q read with
  | nil => exact ⟨read, .step (.readFile true) rfl (leads_refl _)⟩
  | cons name rest ih =>
    by_cases hsample : isSample name = true
    · cases hf : q.find? name with
      | none =>
        obtain ⟨read', h⟩ := ih w q read
        rw [sendFiles_gone hsample hf]
        refine ⟨read', .step (.readFile true) ?_ h⟩
        simp [act, State.readFile, State.uploads, hsample, hf]
      | some f =>
        let answer := (atOnce now hubNow).post w (c.stamp (now w.requests.length) f.snapshot)
        obtain ⟨read', h⟩ := ih answer.2 (q.keep (fun g => g.name ≠ name)) (name :: read)
        have hsend : sendFiles c (atOnce now hubNow) w q (name :: rest) = if answer.1 then
            sendFiles c (atOnce now hubNow) answer.2 (q.keep (fun g => g.name ≠ name)) rest
            else (answer.2, q) := sendFiles_sample hsample hf
        by_cases hok : answer.1 = true
        · refine ⟨read', leads_answer now hubNow w rest read hsample hf ?_⟩
          rw [hsend, if_pos hok]
          change Leads c (answer.2.uploads q (if answer.1 then _ else _) _) _
          rw [if_pos hok]
          refine .step (.remove true) ?_ h
          simp [act, State.remove, State.uploads]
        · refine ⟨name :: read, leads_answer now hubNow w rest read hsample hf ?_⟩
          rw [hsend, if_neg hok]
          change Leads c (answer.2.uploads q (if answer.1 then _ else _) _) _
          rw [if_neg hok]
          exact leads_refl _
    · obtain ⟨read', h⟩ := ih w q read
      rw [sendFiles_other hsample]
      refine ⟨read', .step (.readFile true) ?_ h⟩
      simp [act, State.readFile, State.uploads, hsample]

/-- A tick of the upload loop that nothing disturbs removes what `uploadBatch` removes. -/
theorem uploadBatch_leads (w : State) (q : Queue) (read : List String) :
    ∃ read', Leads c (w.uploads q .waiting read)
      ((uploadBatch c (atOnce now hubNow) w q).1.uploads
        (uploadBatch c (atOnce now hubNow) w q).2 .waiting read') := by
  obtain ⟨read', h⟩ := sendFiles_leads (c := c) now hubNow w q (uploadOrder (readDir q)) read
  exact ⟨read', .step .startBatch rfl h⟩

end System

end CardScope.Agent
