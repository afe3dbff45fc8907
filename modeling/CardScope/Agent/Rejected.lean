import CardScope.Agent.Batches
import CardScope.Library.Replay

/-! # Samples that the hub never accepts

A batch ends at the first failure and keeps that sample. So a sample that is always rejected stays
in the queue, and it may keep others there: what a queue comes to when the hub rejects some samples
for good and no new ones are produced.
-/

namespace CardScope.Agent
open Library Model Hub

def Rejects {σ : Type*} (c : Config) (r : Remote σ) (rejected : Set Snapshot) : Prop :=
  ∀ w now s, (r.post w (c.stamp now s)).1 = true ↔ s ∉ rejected

def afterBatches {σ : Type*} (c : Config) (r : Remote σ) (w : σ) (q : Queue) (k : ℕ) : Queue :=
  ((fun x : σ × Queue => uploadBatch c r x.1 x.2)^[k] (w, q)).2

variable {σ : Type*} {c : Config} {r : Remote σ} {rejected : Set Snapshot}
  [DecidablePred (· ∈ rejected)] {q q' : Queue} {name : String} {f : File}

def newerFiles (rejected : Set Snapshot) [DecidablePred (· ∈ rejected)] (q : Queue) : List File :=
  q.rows.filter (fun f => ∀ g ∈ q.rows, g.snapshot ∈ rejected → g.name < f.name)

def olderFiles (rejected : Set Snapshot) [DecidablePred (· ∈ rejected)] (q : Queue) : List File :=
  q.rows.filter (fun f => ∀ g ∈ q.rows, g.snapshot ∈ rejected → f.name < g.name)

def accepted (rejected : Set Snapshot) [DecidablePred (· ∈ rejected)] (q : Queue) (name : String) :
    Bool :=
  decide (∀ f ∈ q.rows, f.name = name → f.snapshot ∉ rejected)

theorem accepted_name (hf : f ∈ q) : accepted rejected q f.name = true ↔ f.snapshot ∉ rejected := by
  rw [accepted, decide_eq_true_eq]
  refine ⟨fun h => h f hf rfl, fun h g hg hname => ?_⟩
  rwa [Table.eq_of_key hg hf hname]

theorem accepted_name_false (hf : f ∈ q) :
    accepted rejected q f.name = false ↔ f.snapshot ∈ rejected := by
  rw [← not_iff_not, Bool.not_eq_false, accepted_name hf]

/-- One batch on the names: the newest, then nineteen others. -/
theorem readDir_uploadBatch (hr : Rejects c r rejected) (w : σ)
    (hq : ∀ f ∈ q, isSample f.name = true) (hsub : ∀ f ∈ q, f ∈ q') :
    readDir (uploadBatch c r w q).2 = replay 19 (accepted rejected q') (readDir q) ∧
      ∀ f ∈ (uploadBatch c r w q).2, f ∈ q := by
  have hsend : (sendFiles c r w q (uploadOrder (readDir q))).2 =
      q.keep (fun f => f.name ∉ (uploadOrder (readDir q)).takeWhile (accepted rejected q')) :=
    sendFiles_of_answers w (nodup_uploadOrder (nodup_readDir q)) (fun name hname => by
      obtain ⟨f, hf, rfl⟩ := mem_readDir.mp (mem_of_uploadOrder hname)
      refine ⟨hq f hf, f, Table.find?_eq_some.mpr ⟨hf, rfl⟩, fun w now => ?_⟩
      rw [Bool.eq_iff_iff, hr, accepted_name (hsub f hf)])
  rw [uploadBatch, hsend]
  exact ⟨readDir_keep q (· ∉ (uploadOrder (readDir q)).takeWhile (accepted rejected q')),
    fun f hf => (Table.mem_keep.mp hf).1⟩

theorem readDir_afterBatches (hr : Rejects c r rejected) (w : σ)
    (hq : ∀ f ∈ q, isSample f.name = true) (k : ℕ) :
    readDir (afterBatches c r w q k) = (replay 19 (accepted rejected q))^[k] (readDir q) ∧
      ∀ f ∈ afterBatches c r w q k, f ∈ q := by
  induction k with
  | zero => exact ⟨rfl, fun f hf => hf⟩
  | succ k ih =>
    obtain ⟨hnames, hsub⟩ := ih
    have hstep : afterBatches c r w q (k + 1) = (uploadBatch c r
        ((fun x : σ × Queue => uploadBatch c r x.1 x.2)^[k] (w, q)).1 (afterBatches c r w q k)).2 := by
      rw [afterBatches, Function.iterate_succ_apply']
      rfl
    obtain ⟨hbatch, hsub'⟩ := readDir_uploadBatch hr
      ((fun x : σ × Queue => uploadBatch c r x.1 x.2)^[k] (w, q)).1 (fun f hf => hq f (hsub f hf)) hsub
    rw [hstep, Function.iterate_succ_apply', hbatch, hnames]
    exact ⟨rfl, fun f hf => hsub f (hsub' f hf)⟩

theorem mem_afterBatches (hr : Rejects c r rejected) (w : σ)
    (hq : ∀ f ∈ q, isSample f.name = true) (hf : f ∈ q) (k : ℕ) :
    f ∈ afterBatches c r w q k ↔ f.name ∈ (replay 19 (accepted rejected q))^[k] (readDir q) := by
  obtain ⟨hnames, hsub⟩ := readDir_afterBatches hr w hq k
  rw [← hnames, mem_readDir]
  refine ⟨fun h => ⟨f, h, rfl⟩, ?_⟩
  rintro ⟨g, hg, hname⟩
  rwa [← Table.eq_of_key (hsub g hg) hf hname]

theorem lt_readDir (q : Queue) : (readDir q).Pairwise (· < ·) :=
  ((sorted_readDir q).and (nodup_readDir q)).imp (fun h => lt_of_le_of_ne h.1 h.2)

theorem forall_not_accepted {P : String → Prop} :
    (∀ name ∈ readDir q, accepted rejected q name = false → P name) ↔
      ∀ f ∈ q.rows, f.snapshot ∈ rejected → P f.name := by
  constructor
  · exact fun h f hf hbad => h f.name (mem_readDir.mpr ⟨f, hf, rfl⟩) ((accepted_name_false hf).mpr hbad)
  · intro h name hname hbad
    obtain ⟨f, hf, rfl⟩ := mem_readDir.mp hname
    exact h f hf ((accepted_name_false hf).mp hbad)

theorem perm_filter_readDir (q : Queue) (p : String → Bool) :
    ((readDir q).filter p).Perm ((q.rows.filter (fun f => p f.name)).map File.name) := by
  have hmap : (q.rows.filter (fun f => p f.name)).map File.name = (q.rows.map File.name).filter p := by
    rw [List.filter_map]
    rfl
  rw [hmap]
  exact (List.perm_insertionSort (· ≤ ·) _).filter p

theorem perm_newer (rejected : Set Snapshot) [DecidablePred (· ∈ rejected)] (q : Queue) :
    (newer (accepted rejected q) (readDir q)).Perm ((newerFiles rejected q).map File.name) := by
  refine (perm_filter_readDir q _).trans (List.Perm.of_eq (congrArg _ ?_))
  refine List.filter_congr (fun f _ => decide_eq_decide.mpr ?_)
  exact forall_not_accepted (P := fun name => name < f.name)

theorem perm_older (rejected : Set Snapshot) [DecidablePred (· ∈ rejected)] (q : Queue) :
    (older (accepted rejected q) (readDir q)).Perm ((olderFiles rejected q).map File.name) := by
  refine (perm_filter_readDir q _).trans (List.Perm.of_eq (congrArg _ ?_))
  refine List.filter_congr (fun f _ => decide_eq_decide.mpr ?_)
  exact forall_not_accepted (P := fun name => f.name < name)

theorem name_mem_map {files : List File} (hsub : ∀ g ∈ files, g ∈ q) (hf : f ∈ q) :
    f.name ∈ files.map File.name ↔ f ∈ files := by
  refine ⟨fun h => ?_, List.mem_map_of_mem⟩
  obtain ⟨g, hg, hname⟩ := List.mem_map.mp h
  rwa [← Table.eq_of_key (hsub g hg) hf hname]

theorem mem_newer (hf : f ∈ q) :
    f.name ∈ newer (accepted rejected q) (readDir q) ↔ f ∈ newerFiles rejected q := by
  rw [(perm_newer rejected q).mem_iff]
  exact name_mem_map (fun g hg => (List.mem_filter.mp hg).1) hf

theorem mem_older (hf : f ∈ q) :
    f.name ∈ older (accepted rejected q) (readDir q) ↔ f ∈ olderFiles rejected q := by
  rw [(perm_older rejected q).mem_iff]
  exact name_mem_map (fun g hg => (List.mem_filter.mp hg).1) hf

/-- Rejected samples stay and what is newer leaves; only they are left at last exactly when they lie
together and those older are at most nineteen times those newer. -/
theorem only_rejected_left_iff (c : Config) (r : Remote σ) (hr : Rejects c r rejected) (w : σ)
    (q : Queue) (hq : ∀ f ∈ q, isSample f.name = true) :
    ((∃ k, ∀ f ∈ afterBatches c r w q k, f.snapshot ∈ rejected) ↔
      (∀ f ∈ q, f.snapshot ∈ rejected ∨ f ∈ newerFiles rejected q ∨ f ∈ olderFiles rejected q) ∧
        (olderFiles rejected q).length ≤ 19 * (newerFiles rejected q).length) ∧
    (∃ k, ∀ f ∈ newerFiles rejected q, f ∉ afterBatches c r w q k) ∧
    ∀ k, ∀ f ∈ q, f.snapshot ∈ rejected → f ∈ afterBatches c r w q k := by
  have hmem := fun {f} (hf : f ∈ q) k => mem_afterBatches hr w hq hf k
  refine ⟨?_, ?_, fun k f hf hbad => ?_⟩
  · have hleft : (∃ k, ∀ f ∈ afterBatches c r w q k, f.snapshot ∈ rejected) ↔
        ∃ k, ∀ name ∈ (replay 19 (accepted rejected q))^[k] (readDir q),
          accepted rejected q name = false := by
      apply exists_congr
      intro k
      constructor
      · intro h name hname
        obtain ⟨f, hf, rfl⟩ := mem_readDir.mp ((iterate_sublist k _).subset hname)
        exact (accepted_name_false hf).mpr (h f ((hmem hf k).mpr hname))
      · intro h f hf
        have hfq := (readDir_afterBatches hr w hq k).2 f hf
        exact (accepted_name_false hfq).mp (h f.name ((hmem hfq k).mp hf))
    have hplaces : (∀ name ∈ readDir q, accepted rejected q name = false ∨
        name ∈ newer (accepted rejected q) (readDir q) ∨
          name ∈ older (accepted rejected q) (readDir q)) ↔
        ∀ f ∈ q, f.snapshot ∈ rejected ∨ f ∈ newerFiles rejected q ∨ f ∈ olderFiles rejected q := by
      constructor
      · intro h f hf
        rw [← accepted_name_false hf, ← mem_newer hf, ← mem_older hf]
        exact h f.name (mem_readDir.mpr ⟨f, hf, rfl⟩)
      · intro h name hname
        obtain ⟨f, hf, rfl⟩ := mem_readDir.mp hname
        rw [accepted_name_false hf, mem_newer hf, mem_older hf]
        exact h f hf
    rw [hleft, only_bad_iff (lt_readDir q) (by decide), hplaces, (perm_older rejected q).length_eq,
      (perm_newer rejected q).length_eq, List.length_map, List.length_map]
  · obtain ⟨k, hk⟩ : ∃ k, ∀ a ∈ newer (accepted rejected q) (readDir q),
        a ∉ (replay 19 (accepted rejected q))^[k] (readDir q) := newer_leaves (lt_readDir q)
    refine ⟨k, fun f hf => ?_⟩
    have hfq : f ∈ q := (List.mem_filter.mp hf).1
    rw [hmem hfq]
    exact hk f.name ((mem_newer hfq).mpr hf)
  · exact (hmem hf k).mpr (mem_iterate_of_bad (mem_readDir.mpr ⟨f, hf, rfl⟩)
      ((accepted_name_false hf).mpr hbad) k)

section Fixtures

/-- A hub that never accepts the second sample. -/
def withoutSecond : Remote Unit where
  clock _ := 1700000060000
  post _ s := (decide (s.seq ≠ 2), ())

theorem rejects_withoutSecond (c : Config) : Rejects c withoutSecond {s | s.seq = 2} := by
  intro w now s
  exact decide_eq_true_iff

def fileOf (seq atMs : ℤ) : File :=
  ⟨fileName (Hub.sample "n" seq atMs), Hub.sample "n" seq atMs, 1000, atMs⟩

/-- The second sample waits behind the first. -/
def twoFiles : Queue :=
  (Table.empty.put (fileOf 1 1700000041000)).put (fileOf 2 1700000046000)

def threeFiles : Queue := twoFiles.put (fileOf 3 1700000051000)

end Fixtures

/-- The third sample leaves and takes the first with it. -/
theorem only_second_left : ∃ k, ∀ f ∈ afterBatches ⟨"n", 5⟩ withoutSecond () threeFiles k,
    f.snapshot ∈ {s : Snapshot | s.seq = 2} :=
  (only_rejected_left_iff ⟨"n", 5⟩ withoutSecond (rejects_withoutSecond _) () threeFiles
    (by decide +kernel)).1.mpr (by decide +kernel)

/-- The newest sample is rejected, and the one before it is never sent. -/
theorem deliverable_sample_blocked : ¬ ∀ (c : Config) (r : Remote Unit) (rejected : Set Snapshot)
    (q : Queue), Rejects c r rejected → (∀ f ∈ q, isSample f.name = true) →
      ∃ k, ∀ f ∈ afterBatches c r () q k, f.snapshot ∈ rejected := by
  intro h
  obtain ⟨k, hk⟩ := h ⟨"n", 5⟩ withoutSecond {s | s.seq = 2} twoFiles (rejects_withoutSecond _)
    (by decide +kernel)
  have hfixed : Function.IsFixedPt
      (fun x : Unit × Queue => uploadBatch ⟨"n", 5⟩ withoutSecond x.1 x.2) ((), twoFiles) := by
    change uploadBatch ⟨"n", 5⟩ withoutSecond () twoFiles = ((), twoFiles)
    decide +kernel
  have hsame : afterBatches ⟨"n", 5⟩ withoutSecond () twoFiles k = twoFiles :=
    congrArg Prod.snd (hfixed.iterate k)
  rw [hsame] at hk
  exact absurd (hk (fileOf 1 1700000041000) (Table.mem_def.mpr (by decide +kernel))) (by decide +kernel)

end CardScope.Agent
