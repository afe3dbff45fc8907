import CardScope.Agent.Log

/-! # What every step of the system keeps

The samples are numbered apart, a file of the queue holds the sample that its name tells, what the
upload loop has in memory was read from such a file, and what the hub stored for the client was
posted. With this each queued sample can be followed to its end.
-/

namespace CardScope.Agent
open Library Model Hub Ingestion

def State.pending (st : State) : Option Snapshot :=
  match st.sampling with
  | .sampled s | .written s => some s
  | _ => none

/-- The sample that the upload loop has in memory, and the name of its file. -/
def State.held (st : State) : Option (String × Snapshot) :=
  match st.uploading with
  | .loaded name s _ | .posted name s _ _ | .accepted name s _ => some (name, s)
  | _ => none

def Queued (st : State) (s : Snapshot) : Prop :=
  ∃ f ∈ st.queue, f.name = fileName s ∧ f.snapshot = s

/-- The hub has committed the sample, as a live one or as a late one. -/
def Committed (st : State) (s : Snapshot) : Prop :=
  ∃ now late, Event.ingest now { s with backfill := late } ∈ st.log

/-- The sample was counted when its file was evicted. -/
def Counted (st : State) (s : Snapshot) : Prop := ∃ e ∈ st.evicted, e.snapshot = s

/-- A number is given once in each start of the client. -/
structure Numbered (node : String) (st : State) : Prop where
  boots : ∀ b ∈ st.boots, '-' ∉ b.toList
  boot : st.boot ∈ st.boots
  seq : 0 ≤ st.seq
  produced : ∀ s ∈ st.produced, s.nodeID = node ∧ s.bootID ∈ st.boots ∧ 0 ≤ s.seq ∧
    (s.bootID = st.boot → s.seq ≤ st.seq)
  distinct : (st.produced.map Snapshot.identity).Nodup
  pending : ∀ s ∈ st.pending, s.nodeID = node ∧ s.bootID = st.boot ∧ s.seq = st.seq ∧
    s.identity ∉ st.produced.map Snapshot.identity

/-- The name of a file tells its content. -/
structure Filed (st : State) : Prop where
  files : ∀ f ∈ st.queue, isSample f.name = true → f.snapshot ∈ st.produced ∧
    f.name = fileName f.snapshot
  temp : ∀ s, st.sampling = .written s → ∀ f ∈ st.queue, f.name = tempName (fileName s) →
    f.snapshot = s
  evicting : ∀ name fileSize rest size, st.sampling = .evicting name fileSize rest size →
    isSample name = true

/-- What was posted was read before, and only what was posted is stored. -/
structure Sent (node : String) (st : State) : Prop where
  held : ∀ name s, st.held = some (name, s) →
    s ∈ st.produced ∧ name = fileName s ∧ name ∈ st.read
  posted : ∀ name s rest id, st.uploading = .posted name s rest id →
    ∃ late, st.requests[id]? = some { s with backfill := late }
  accepted : ∀ name s rest, st.uploading = .accepted name s rest → Committed st s
  requests : ∀ u ∈ st.requests, ∃ s ∈ st.produced, ∃ late, u = { s with backfill := late } ∧
    fileName s ∈ st.read
  responses : ∀ id, (id, true) ∈ st.responses → ∃ u, st.requests[id]? = some u ∧
    ∃ now v, Event.ingest now v ∈ st.log ∧ v.identity = u.identity
  log : ∀ now u, Event.ingest now u ∈ st.log → u.nodeID = node → u ∈ st.requests

/-- Each file that left the queue was stored or counted, and each count stands for such a file. -/
structure Accounted (dropped : ℤ) (st : State) : Prop where
  kept : ∀ s ∈ st.produced, Queued st s ∨ Committed st s ∨ Counted st s
  total : st.dropped = dropped + st.evicted.length
  counted : (st.evicted.map (fun e => e.snapshot.identity)).Nodup
  gone : ∀ e ∈ st.evicted, e.snapshot ∈ st.produced ∧
    ∀ f ∈ st.queue, f.name ≠ fileName e.snapshot
  unread : ∀ e ∈ st.evicted, e.read = false → fileName e.snapshot ∉ st.read

/-- All of it, and the log of the hub, which holds each sample of the client once while the clock
is steady. -/
structure Inv (c : Setup) (st : State) : Prop extends Numbered c.config.nodeID st, Filed st,
    Sent c.config.nodeID st, Accounted c.dropped st where
  logged : Logged c.nodes st.hub st.log
  once : Steady st.log → ((uploads c.config.nodeID st.log).map Snapshot.identity).Nodup

variable {c : Setup} {st : State}

theorem Inv.eq_of_identity (h : Inv c st) {s t : Snapshot} (hs : s ∈ st.produced)
    (ht : t ∈ st.produced) (hid : s.identity = t.identity) : s = t :=
  List.inj_on_of_nodup_map h.distinct hs ht hid

theorem Inv.eq_of_fileName (h : Inv c st) {s t : Snapshot} (hs : s ∈ st.produced)
    (ht : t ∈ st.produced) (hname : fileName s = fileName t) : s = t := by
  obtain ⟨hn, hb, hseq, -⟩ := h.produced s hs
  obtain ⟨hn', hb', hseq', -⟩ := h.produced t ht
  obtain ⟨hboot, hnumber⟩ := fileName_inj (h.boots _ hb) (h.boots _ hb') hseq hseq' hname
  apply h.eq_of_identity hs ht
  rw [Snapshot.identity, Snapshot.identity, hn, hn', hboot, hnumber]

theorem inv_start (c : Setup) : Inv c c.start where
  boots := by
    intro b hb
    rw [List.mem_singleton.mp hb]
    exact c.boot.no_hyphen
  boot := List.mem_singleton.mpr rfl
  seq := le_rfl
  produced := fun _ hs => absurd hs List.not_mem_nil
  distinct := List.nodup_nil
  counted := List.nodup_nil
  pending := fun _ hs => by cases hs
  files := fun f hf => absurd hf (Table.not_mem_empty f)
  temp := fun _ hs => by cases hs
  evicting := fun _ _ _ _ hs => by cases hs
  held := fun _ _ hs => by cases hs
  posted := fun _ _ _ _ hs => by cases hs
  accepted := fun _ _ _ hs => by cases hs
  requests := fun _ hu => absurd hu List.not_mem_nil
  responses := fun _ hr => absurd hr List.not_mem_nil
  log := fun _ _ hu => absurd hu List.not_mem_nil
  kept := fun _ hs => absurd hs List.not_mem_nil
  total := by simp [Setup.start]
  gone := fun _ he => absurd he List.not_mem_nil
  unread := fun _ he => absurd he List.not_mem_nil
  logged := logged_fresh c.nodes
  once := fun _ => List.nodup_nil

section SamplingLoop

theorem Inv.pending_fileName (h : Inv c st) {s t : Snapshot} (hs : s ∈ st.pending)
    (ht : t ∈ st.produced) : fileName s ≠ fileName t := by
  intro hname
  obtain ⟨hn, hb, hseq, hnew⟩ := h.pending s hs
  obtain ⟨hn', hb', hseq', -⟩ := h.produced t ht
  obtain ⟨hboot, hnumber⟩ := fileName_inj (by rw [hb]; exact h.boots _ h.boot) (h.boots _ hb')
    (by rw [hseq]; exact h.seq) hseq' hname
  refine hnew (List.mem_map.mpr ⟨t, ht, ?_⟩)
  rw [Snapshot.identity, Snapshot.identity, hn, hn', hboot, hnumber]

theorem Inv.sample (h : Inv c st) (collected : Snapshot) :
    Inv c (st.sample c.config collected) := by
  unfold State.sample
  cases hphase : st.sampling with
  | waiting =>
    exact { h with
      seq := by
        have hseq := h.seq
        change 0 ≤ st.seq + 1
        omega
      produced := by
        intro s hs
        obtain ⟨hn, hb, hseq, hle⟩ := h.produced s hs
        exact ⟨hn, hb, hseq, fun hboot => (hle hboot).trans (by simp)⟩
      pending := by
        rintro s ⟨⟩
        refine ⟨rfl, rfl, rfl, fun hmem => ?_⟩
        obtain ⟨t, ht, hid⟩ := List.mem_map.mp hmem
        obtain ⟨-, hboot, hseq⟩ : t.nodeID = c.config.nodeID ∧ t.bootID = st.boot ∧
            t.seq = st.seq + 1 := by simpa [Snapshot.identity] using hid
        have hle := (h.produced t ht).2.2.2 hboot
        omega
      temp := fun _ hs => by cases hs
      evicting := fun _ _ _ _ hs => by cases hs }
  | sampled | written | queued | measuring | pruning | evicting => exact h

/-- Temporary files do not get in the way of samples. -/
theorem ne_tempName (s : Snapshot) (name : String) : fileName s ≠ tempName name := by
  intro heq
  have hsample := isSample_fileName s
  rw [heq, isSample_tempName] at hsample
  cases hsample

theorem Inv.writeTemp (h : Inv c st) (size : ℕ) (now : ℤ) : Inv c (st.writeTemp size now) := by
  unfold State.writeTemp
  cases hphase : st.sampling with
  | sampled s =>
    have hpending : st.pending = some s := by
      unfold State.pending
      rw [hphase]
    exact { h with
      pending := by
        rintro t ⟨⟩
        exact h.pending s hpending
      files := by
        intro f hf hsample
        rcases Table.mem_put.mp hf with rfl | ⟨hf, -⟩
        · rw [isSample_tempName] at hsample
          cases hsample
        · exact h.files f hf hsample
      temp := by
        rintro t ⟨⟩ f hf hname
        rcases Table.mem_put.mp hf with rfl | ⟨-, hne⟩
        · rfl
        · exact absurd hname hne
      evicting := fun _ _ _ _ hs => by cases hs
      kept := by
        intro t ht
        refine (h.kept t ht).imp_left (fun ⟨f, hf, hname, hcontent⟩ => ?_)
        refine ⟨f, Table.mem_put.mpr (.inr ⟨hf, ?_⟩), hname, hcontent⟩
        rw [hname]
        exact ne_tempName t _
      gone := by
        intro e he
        obtain ⟨hmem, hgone⟩ := h.gone e he
        refine ⟨hmem, fun f hf => ?_⟩
        rcases Table.mem_put.mp hf with rfl | ⟨hf, -⟩
        · exact (ne_tempName _ _).symm
        · exact hgone f hf }
  | waiting | written | queued | measuring | pruning | evicting => exact h

theorem Numbered.queue {node : String} (h : Numbered node st) {s : Snapshot} (hs : s ∈ st.pending)
    (q : Queue) : Numbered node { st with
      queue := q
      produced := st.produced ++ [s]
      sampling := .queued } := by
  obtain ⟨hn, hb, hseq, hnew⟩ := h.pending s hs
  exact { h with
    produced := by
      intro t ht
      rcases List.mem_append.mp ht with ht | ht
      · exact h.produced t ht
      · rw [List.mem_singleton.mp ht]
        exact ⟨hn, by rw [hb]; exact h.boot, by rw [hseq]; exact h.seq, fun _ => hseq.le⟩
    distinct := nodup_map_concat h.distinct hnew
    pending := fun _ hs => by cases hs }

theorem Inv.rename (h : Inv c st) : Inv c st.rename := by
  unfold State.rename
  cases hphase : st.sampling with
  | written s =>
    have hpending : st.pending = some s := by
      unfold State.pending
      rw [hphase]
    simp only
    cases hfind : st.queue.find? (tempName (fileName s)) with
    | none => exact h
    | some f =>
      obtain ⟨hf, hfname⟩ := Table.find?_eq_some.mp hfind
      have hcontent : f.snapshot = s := h.temp s hphase f hf hfname
      -- the files of other samples stay where they are
      have hstay : ∀ t ∈ st.produced, ∀ g ∈ st.queue, g.name = fileName t →
          g ∈ (st.queue.keep (fun g => g.name ≠ f.name)).put { f with name := fileName s } := by
        intro t ht g hg hname
        refine Table.mem_put.mpr (.inr ⟨Table.mem_keep.mpr ⟨hg, ?_⟩, ?_⟩)
        · rw [hname, hfname]
          exact decide_eq_true (ne_tempName t _)
        · change g.name ≠ fileName s
          rw [hname]
          exact (h.pending_fileName hpending ht).symm
      exact { h.toNumbered.queue hpending _, h with
        files := by
          intro g hg hsample
          rcases Table.mem_put.mp hg with rfl | ⟨hg, -⟩
          · exact ⟨by simp [hcontent], by simp [hcontent]⟩
          · obtain ⟨hmem, hname⟩ := h.files g (Table.mem_keep.mp hg).1 hsample
            exact ⟨List.mem_append_left _ hmem, hname⟩
        temp := fun _ hs => by cases hs
        evicting := fun _ _ _ _ hs => by cases hs
        held := by
          intro name t ht
          obtain ⟨hmem, hheld⟩ := h.held name t ht
          exact ⟨List.mem_append_left _ hmem, hheld⟩
        requests := by
          intro u hu
          obtain ⟨t, ht, hposted⟩ := h.requests u hu
          exact ⟨t, List.mem_append_left _ ht, hposted⟩
        kept := by
          intro t ht
          rcases List.mem_append.mp ht with ht | ht
          · apply (h.kept t ht).imp_left
            rintro ⟨g, hg, hname, hg'⟩
            exact ⟨g, hstay t ht g hg hname, hname, hg'⟩
          · rw [List.mem_singleton.mp ht]
            exact .inl ⟨_, Table.mem_put.mpr (.inl rfl), rfl, hcontent⟩
        gone := by
          intro e he
          obtain ⟨hmem, hgone⟩ := h.gone e he
          refine ⟨List.mem_append_left _ hmem, fun g hg => ?_⟩
          rcases Table.mem_put.mp hg with rfl | ⟨hg, -⟩
          · exact h.pending_fileName hpending hmem
          · exact hgone g (Table.mem_keep.mp hg).1 }
  | waiting | sampled | queued | measuring | pruning | evicting => exact h

theorem Inv.scan (h : Inv c st) {phase : Sampling}
    (hpending : ({ st with sampling := phase } : State).pending = none)
    (hsample : ∀ name fileSize rest size, phase = .evicting name fileSize rest size →
      isSample name = true) : Inv c { st with sampling := phase } :=
  { h with
    pending := fun s hs => by rw [hpending] at hs; cases hs
    temp := fun s hs => by
      rw [State.pending, hs] at hpending
      cases hpending
    evicting := hsample }

theorem Inv.listFiles (h : Inv c st) (readable : Bool) : Inv c (st.listFiles readable) := by
  unfold State.listFiles
  cases hphase : st.sampling with
  | queued => exact h.scan rfl (fun _ _ _ _ hs => by cases hs)
  | waiting | sampled | written | measuring | pruning | evicting => exact h

theorem Inv.measure (h : Inv c st) : Inv c st.measure := by
  unfold State.measure
  cases hphase : st.sampling with
  | measuring rest files size =>
    cases rest with
    | nil => exact h.scan rfl (fun _ _ _ _ hs => by cases hs)
    | cons name rest => exact h.scan rfl (fun _ _ _ _ hs => by cases hs)
  | waiting | sampled | written | queued | pruning | evicting => exact h

theorem Inv.examine (h : Inv c st) (now : ℤ) : Inv c (st.examine now) := by
  unfold State.examine
  cases hphase : st.sampling with
  | pruning rest size =>
    cases rest with
    | nil => exact h.scan rfl (fun _ _ _ _ hs => by cases hs)
    | cons name rest =>
      simp only
      split
      · exact h.scan rfl (fun _ _ _ _ hs => by cases hs)
      · rename_i hsample
        cases st.queue.find? name with
        | none => exact h.scan rfl (fun _ _ _ _ hs => by cases hs)
        | some f =>
          simp only
          split
          · exact h.scan rfl (fun _ _ _ _ hs => by cases hs)
          · apply h.scan rfl
            intro _ _ _ _ hs
            cases hs
            simpa using hsample
  | waiting | sampled | written | queued | measuring | evicting => exact h

theorem Inv.evict (h : Inv c st) (removable : Bool) : Inv c (st.evict removable) := by
  unfold State.evict
  cases hphase : st.sampling with
  | evicting name fileSize rest size =>
    simp only
    cases hfind : (st.queue.find? name).filter (fun _ => removable) with
    | none => exact h.scan rfl (fun _ _ _ _ hs => by cases hs)
    | some f =>
      obtain ⟨hf, hfname⟩ := Table.find?_eq_some.mp (Option.filter_eq_some_iff.mp hfind).1
      have hsample := h.evicting name fileSize rest size hphase
      obtain ⟨hmem, hname⟩ := h.files f hf (by rw [hfname]; exact hsample)
      have hrest : ∀ g ∈ st.queue.keep (fun g => g.name ≠ name), g ∈ st.queue ∧ g.name ≠ name := by
        intro g hg
        obtain ⟨hg, hne⟩ := Table.mem_keep.mp hg
        exact ⟨hg, of_decide_eq_true hne⟩
      exact { h with
        pending := fun _ hs => by cases hs
        files := fun g hg => h.files g (hrest g hg).1
        temp := fun _ hs => by cases hs
        evicting := fun _ _ _ _ hs => by cases hs
        kept := by
          intro t ht
          rcases h.kept t ht with ⟨g, hg, hgname, hcontent⟩ | hcommitted | ⟨e, he, hcontent⟩
          · by_cases hevicted : g.name = name
            · obtain rfl : g = f := Table.eq_of_key hg hf (hevicted.trans hfname.symm)
              exact .inr (.inr ⟨_, List.mem_append_right _ (List.mem_singleton.mpr rfl), hcontent⟩)
            · exact .inl ⟨g, Table.mem_keep.mpr ⟨hg, decide_eq_true hevicted⟩, hgname, hcontent⟩
          · exact .inr (.inl hcommitted)
          · exact .inr (.inr ⟨e, List.mem_append_left _ he, hcontent⟩)
        total := by
          change st.dropped + 1 = _
          rw [h.total, List.length_append, List.length_singleton]
          push_cast
          ring
        counted := by
          apply nodup_map_concat h.counted
          intro hid
          obtain ⟨e, he, hid⟩ := List.mem_map.mp hid
          have heq := h.eq_of_identity (h.gone e he).1 hmem hid
          exact (h.gone e he).2 f hf (by rw [heq, hname])
        gone := by
          intro e he
          rcases List.mem_append.mp he with he | he
          · exact ⟨(h.gone e he).1, fun g hg => (h.gone e he).2 g (hrest g hg).1⟩
          · rw [List.mem_singleton.mp he]
            refine ⟨hmem, fun g hg => ?_⟩
            rw [← hname, hfname]
            exact (hrest g hg).2
        unread := by
          intro e he hread
          rcases List.mem_append.mp he with he | he
          · exact h.unread e he hread
          · rw [List.mem_singleton.mp he] at hread ⊢
            rw [← hname, hfname]
            exact of_decide_eq_false hread }
  | waiting | sampled | written | queued | measuring | pruning => exact h

theorem Inv.between (h : Inv c st) {phase : Uploading}
    (hheld : ({ st with uploading := phase } : State).held = none) :
    Inv c { st with uploading := phase } :=
  { h with
    held := fun name s hs => by rw [hheld] at hs; cases hs
    posted := fun name s rest id hs => by
      rw [State.held, hs] at hheld
      cases hheld
    accepted := fun name s rest hs => by
      rw [State.held, hs] at hheld
      cases hheld }

theorem Inv.restart (h : Inv c st) (boot : BootID) : Inv c (st.restart boot) := by
  have hscan : Inv c { st with sampling := .waiting } :=
    h.scan rfl (fun _ _ _ _ hs => by cases hs)
  have hidle : Inv c { st with sampling := .waiting, uploading := .waiting } := hscan.between rfl
  have hnew : boot.text ∉ st.boots → Inv c { st with
      boot := boot.text
      boots := boot.text :: st.boots
      seq := 0
      sampling := .waiting
      uploading := .waiting } := by
    intro hboot
    exact { hidle with
      boots := by
        intro b hb
        rcases List.mem_cons.mp hb with rfl | hb
        · exact boot.no_hyphen
        · exact h.boots b hb
      boot := List.mem_cons_self
      seq := le_rfl
      produced := by
        intro s hs
        obtain ⟨hn, hb, hseq, -⟩ := h.produced s hs
        refine ⟨hn, List.mem_cons_of_mem _ hb, hseq, fun heq => ?_⟩
        rw [heq] at hb
        exact absurd hb hboot
      pending := fun _ hs => by cases hs }
  unfold State.restart
  cases hphase : st.sampling with
  | waiting =>
    cases huploading : st.uploading with
    | waiting | batch =>
      simp only
      split
      · exact h
      · exact hnew ‹_›
    | loaded | posted | accepted => exact h
  | sampled | written | queued | measuring | pruning | evicting => exact h

end SamplingLoop

section UploadLoop

theorem Inv.startBatch (h : Inv c st) : Inv c st.startBatch := by
  unfold State.startBatch
  cases hphase : st.uploading with
  | waiting => exact h.between rfl
  | batch | loaded | posted | accepted => exact h

theorem Inv.readFile (h : Inv c st) (readable : Bool) : Inv c (st.readFile readable) := by
  unfold State.readFile
  cases hphase : st.uploading with
  | batch rest =>
    cases rest with
    | nil => exact h.between rfl
    | cons name rest =>
      simp only
      split
      · exact h.between rfl
      · rename_i hsample
        cases hfind : (st.queue.find? name).filter (fun _ => readable) with
        | none => exact h.between rfl
        | some f =>
          obtain ⟨hf, hfname⟩ := Table.find?_eq_some.mp (Option.filter_eq_some_iff.mp hfind).1
          obtain ⟨hmem, hname⟩ := h.files f hf (by simpa [hfname] using hsample)
          exact { h with
            held := by
              rintro _ _ ⟨⟩
              exact ⟨hmem, hfname.symm.trans hname, List.mem_cons_self⟩
            posted := fun _ _ _ _ hs => by cases hs
            accepted := fun _ _ _ hs => by cases hs
            requests := by
              intro u hu
              obtain ⟨s, hs, late, heq, hread⟩ := h.requests u hu
              exact ⟨s, hs, late, heq, List.mem_cons_of_mem _ hread⟩
            unread := by
              -- the file is in the queue, so it is not an evicted one
              intro e he hread hmem'
              rcases List.mem_cons.mp hmem' with heq | hmem'
              · exact (h.gone e he).2 f hf (hfname.trans heq.symm)
              · exact h.unread e he hread hmem' }
  | waiting | loaded | posted | accepted => exact h

theorem Inv.post (h : Inv c st) (now : ℤ) : Inv c (st.post c.config now) := by
  unfold State.post
  cases hphase : st.uploading with
  | loaded name s rest =>
    obtain ⟨hmem, hname, hread⟩ := h.held name s (by rw [State.held, hphase])
    exact { h with
      held := by
        rintro _ _ ⟨⟩
        exact ⟨hmem, hname, hread⟩
      posted := by
        rintro _ _ _ _ ⟨⟩
        exact ⟨_, List.getElem?_concat_length⟩
      accepted := fun _ _ _ hs => by cases hs
      requests := by
        intro u hu
        rcases List.mem_append.mp hu with hu | hu
        · exact h.requests u hu
        · exact ⟨s, hmem, _, List.mem_singleton.mp hu, hname ▸ hread⟩
      responses := by
        intro id hid
        obtain ⟨u, hu, hcommitted⟩ := h.responses id hid
        exact ⟨u, (List.getElem?_append_left (List.getElem?_eq_some_iff.mp hu).1).trans hu,
          hcommitted⟩
      log := fun now' u hu hn => List.mem_append_left _ (h.log now' u hu hn) }
  | waiting | batch | posted | accepted => exact h

theorem Inv.committed (h : Inv c st) {s : Snapshot} (hs : s ∈ st.produced) {now : ℤ} {v : Snapshot}
    (hv : Event.ingest now v ∈ st.log) (hid : v.identity = s.identity) : Committed st s := by
  have hnode : v.nodeID = c.config.nodeID :=
    (congrArg Prod.fst hid).trans (h.produced s hs).1
  obtain ⟨t, ht, late, rfl, -⟩ := h.requests v (h.log now v hv hnode)
  obtain rfl : t = s := h.eq_of_identity ht hs hid
  exact ⟨now, late, hv⟩

theorem Inv.receive (h : Inv c st) (ok : Bool) : Inv c (st.receive ok) := by
  unfold State.receive
  cases hphase : st.uploading with
  | posted name s rest id =>
    by_cases hresponse : (id, ok) ∈ st.responses
    · simp only [not_not.mpr hresponse, if_false]
      cases ok with
      | false => exact h.between rfl
      | true =>
        have hheld := h.held name s (by rw [State.held, hphase])
        exact { h with
          held := by
            rintro _ _ ⟨⟩
            exact hheld
          posted := fun _ _ _ _ hs => by cases hs
          accepted := by
            rintro _ _ _ ⟨⟩
            obtain ⟨late, hposted⟩ := h.posted name s rest id hphase
            obtain ⟨u, hu, now, v, hv, hid⟩ := h.responses id hresponse
            obtain rfl := Option.some.inj (hposted.symm.trans hu)
            exact h.committed hheld.1 hv hid }
    · simp only [hresponse, not_false_eq_true, if_true]
      exact h
  | waiting | batch | loaded | accepted => exact h

theorem Inv.giveUp (h : Inv c st) : Inv c st.giveUp := by
  unfold State.giveUp
  cases hphase : st.uploading with
  | posted => exact h.between rfl
  | waiting | batch | loaded | accepted => exact h

theorem Inv.remove (h : Inv c st) (removable : Bool) : Inv c (st.remove removable) := by
  unfold State.remove
  cases hphase : st.uploading with
  | accepted name s rest =>
    obtain ⟨hmem, hname, -⟩ := h.held name s (by rw [State.held, hphase])
    have hcommitted := h.accepted name s rest hphase
    exact { h with
      files := fun f hf => h.files f (Table.mem_keep.mp hf).1
      temp := fun t ht f hf => h.temp t ht f (Table.mem_keep.mp hf).1
      held := fun _ _ hs => by cases hs
      posted := fun _ _ _ _ hs => by cases hs
      accepted := fun _ _ _ hs => by cases hs
      kept := by
        intro t ht
        rcases h.kept t ht with ⟨f, hf, hfname, hcontent⟩ | hdone
        · by_cases hremoved : f.name = name
          · obtain rfl : t = s :=
              h.eq_of_fileName ht hmem (hfname.symm.trans (hremoved.trans hname))
            exact .inr (.inl hcommitted)
          · exact .inl ⟨f, Table.mem_keep.mpr ⟨hf, by simp [hremoved]⟩, hfname, hcontent⟩
        · exact .inr hdone
      gone := fun e he => ⟨(h.gone e he).1, fun f hf =>
        (h.gone e he).2 f (Table.mem_keep.mp hf).1⟩ }
  | waiting | batch | loaded | posted => exact h

end UploadLoop

section HubSide

theorem Committed.mono {log : List Event} {s : Snapshot} (h : Committed st s)
    (hlog : st.log <+: log) {st' : State} (hst' : st'.log = log) : Committed st' s := by
  obtain ⟨now, late, hmem⟩ := h
  exact ⟨now, late, by rw [hst']; exact hlog.subset hmem⟩

theorem Inv.grow (h : Inv c st) {hub : Store} {log : List Event} (hgrows : st.log <+: log)
    (hlogged : Logged c.nodes hub log)
    (hposted : ∀ now u, Event.ingest now u ∈ log → u.nodeID = c.config.nodeID → u ∈ st.requests)
    (honce : Steady log → ((uploads c.config.nodeID log).map Snapshot.identity).Nodup) :
    Inv c { st with hub := hub, log := log } :=
  { h with
    accepted := fun name s rest hs => (h.accepted name s rest hs).mono hgrows rfl
    responses := by
      intro id hid
      obtain ⟨u, hu, now, v, hv, heq⟩ := h.responses id hid
      exact ⟨u, hu, now, v, hgrows.subset hv, heq⟩
    log := hposted
    kept := fun s hs => (h.kept s hs).imp_right (fun hdone =>
      hdone.imp_left (fun hcommitted => hcommitted.mono hgrows rfl))
    logged := hlogged
    once := honce }

theorem Inv.record (h : Inv c st) {now : ℤ} {u : Snapshot} {node : NodeRow} {full : Snapshot}
    {tx : Store} (hu : u.nodeID = c.config.nodeID → u ∈ st.requests)
    (hrec : Recorded now st.hub u node full tx (ingested now st.hub u)) :
    Inv c { st with hub := ingested now st.hub u, log := st.log ++ [.ingest now u] } := by
  have hgrows : st.log <+: st.log ++ [.ingest now u] := List.prefix_append _ _
  refine h.grow hgrows (h.logged.record hrec rfl) ?_ ?_
  · intro now' v hv hn
    rcases List.mem_append.mp hv with hv | hv
    · exact h.log now' v hv hn
    · cases List.mem_singleton.mp hv
      exact hu hn
  · intro hsteady
    have hbefore := h.once (hsteady.sublist hgrows.sublist)
    rw [uploads_append]
    by_cases hn : u.nodeID = c.config.nodeID
    · rw [uploads_ingest hn]
      apply nodup_map_concat hbefore
      intro hid
      obtain ⟨v, hv, heq⟩ := List.mem_map.mp hid
      obtain ⟨now', hv, hvn⟩ := mem_uploads.mp hv
      -- both are copies of one sample
      obtain ⟨s, hs, late, rfl, -⟩ := h.requests v (h.log now' v hv hvn)
      obtain ⟨t, ht, late', rfl, -⟩ := h.requests u (hu hn)
      obtain rfl : s = t := h.eq_of_identity hs ht heq
      exact h.logged.new_identity hrec hsteady hv rfl heq
    · rw [uploads_other hn, List.append_nil]
      exact hbefore

/-- A transaction that succeeds has stored the sample or found it stored. -/
theorem Inv.transact (h : Inv c st) (now : ℤ) {u : Snapshot}
    (hu : u.nodeID = c.config.nodeID → u ∈ st.requests) :
    Inv c (st.transact now u).2 ∧ ((st.transact now u).1 = true →
      ∃ now' v, Event.ingest now' v ∈ (st.transact now u).2.log ∧ v.identity = u.identity) ∧
    (st.transact now u).2.requests = st.requests := by
  rcases transact_cases st now u with hcase | ⟨⟨r, hr, hkey⟩, hcase⟩ | ⟨node, full, tx, hrec, hcase⟩
  · rw [hcase]
    exact ⟨h, (fun hok => by cases hok), rfl⟩
  · rw [hcase]
    obtain ⟨now', v, hv, rfl⟩ := h.logged.rows r hr
    exact ⟨h, fun _ => ⟨now', v, hv, hkey⟩, rfl⟩
  · rw [hcase]
    exact ⟨h.record hu hrec, fun _ => ⟨now, u, by simp, rfl⟩, rfl⟩

theorem Inv.serve (h : Inv c st) (id : ℕ) (now : ℤ) : Inv c (st.serve id now) := by
  unfold State.serve
  cases hrequest : st.requests[id]? with
  | none => exact h
  | some u =>
    obtain ⟨hdone, hok, hrequests⟩ := h.transact now (fun _ => List.mem_of_getElem? hrequest)
    simp only
    exact { hdone with
      responses := by
        intro id' hid'
        rcases List.mem_cons.mp hid' with heq | hid'
        · obtain ⟨rfl, hresult⟩ := Prod.mk.inj heq
          exact ⟨u, by rw [← hrequest, ← hrequests], hok hresult.symm⟩
        · exact hdone.responses id' hid' }

theorem Inv.refuse (h : Inv c st) (id : ℕ) : Inv c (st.refuse id) := by
  unfold State.refuse
  cases st.requests[id]? with
  | none => exact h
  | some u =>
    exact { h with
      responses := by
        intro id' hid'
        rcases List.mem_cons.mp hid' with heq | hid'
        · cases heq
        · exact h.responses id' hid' }

theorem Inv.upload (h : Inv c st) (now : ℤ) (u : Snapshot) : Inv c (st.upload c.config now u) := by
  unfold State.upload
  split
  · exact h
  · rename_i hn
    exact (h.transact now (fun hnode => absurd hnode hn)).1

theorem Inv.cleanup (h : Inv c st) (now : ℤ) : Inv c (st.cleanup now) := by
  have hgrows : st.log <+: st.log ++ [.prune now] := List.prefix_append _ _
  refine h.grow hgrows (h.logged.cleanup now) ?_ ?_
  · intro now' v hv hn
    rcases List.mem_append.mp hv with hv | hv
    · exact h.log now' v hv hn
    · cases List.mem_singleton.mp hv
  · intro hsteady
    rw [uploads_append, show uploads c.config.nodeID [.prune now] = [] from rfl, List.append_nil]
    exact h.once (hsteady.sublist hgrows.sublist)

end HubSide

theorem Inv.act (h : Inv c st) (a : Action) : Inv c (act c.config st a) := by
  cases a with
  | sample collected => exact h.sample collected
  | writeTemp size now => exact h.writeTemp size now
  | rename => exact h.rename
  | listFiles readable => exact h.listFiles readable
  | measure => exact h.measure
  | examine now => exact h.examine now
  | evict removable => exact h.evict removable
  | restart boot => exact h.restart boot
  | startBatch => exact h.startBatch
  | readFile readable => exact h.readFile readable
  | post now => exact h.post now
  | receive ok => exact h.receive ok
  | giveUp => exact h.giveUp
  | remove removable => exact h.remove removable
  | serve id now => exact h.serve id now
  | refuse id => exact h.refuse id
  | upload now u => exact h.upload now u
  | cleanup now => exact h.cleanup now

theorem inv_after (c : Setup) (actions : List Action) : Inv c (c.after actions) :=
  foldl_invariant (Agent.act c.config) (fun _ st => Inv c st) (fun a _ _ h => h.act a) actions
    c.start (inv_start c)

end CardScope.Agent
