import CardScope.Agent.Batches

/-! # Cleaning up the queue

`pruneQueue` goes once through the files from the oldest on, with the size of what is left. Where later
files are not older, it stops to remove as soon as the rest fits, so it keeps as many of the newest
files as can be kept.
-/

namespace CardScope.Agent.Pruning
open Library Model

/-- The queue, the count of dropped samples and what the file with the count holds. -/
structure Spool where
  queue : Queue
  dropped : ℤ
  saved : Option ℤ

/-- The removal of a file, which is counted and saved. -/
def Spool.drop (s : Spool) (name : String) : Spool where
  queue := s.queue.keep (fun f => f.name ≠ name)
  dropped := s.dropped + 1
  saved := some (s.dropped + 1)

/-- The second loop, with the size of the files that are left. -/
def pruneFiles (now : ℤ) : List String → ℤ → Spool → Spool
  | [], _, s => s
  | name :: rest, size, s =>
    if !isSample name then pruneFiles now rest size s
    else match s.queue.find? name with
      | none => pruneFiles now rest size s
      | some f =>
        if size ≤ capacity ∧ now - f.modified ≤ maxAge then pruneFiles now rest size s
        else pruneFiles now rest (size - f.size) (s.drop name)

def listedSize (q : Queue) (names : List String) : ℤ :=
  (names.map (fun name => (q.find? name).elim (0 : ℤ) (fun f => f.size))).sum

def pruneQueue (now : ℤ) (s : Spool) : Spool :=
  pruneFiles now (readDir s.queue) (listedSize s.queue (readDir s.queue)) s

def listing (q : Queue) : List File := q.rows.insertionSort (fun f g => f.name ≤ g.name)

def Fits (now : ℤ) (files : List File) : Prop :=
  (files.map (fun f => (f.size : ℤ))).sum ≤ capacity ∧ ∀ f ∈ files, now - f.modified ≤ maxAge

section Listing

variable {q : Queue} {f : File} {rest : List File}

theorem mem_listing : f ∈ listing q ↔ f ∈ q := List.mem_insertionSort _

theorem map_listing (q : Queue) : (listing q).map File.name = readDir q := by
  apply List.Perm.eq_of_pairwise' _ (sorted_readDir q)
  · exact ((List.perm_insertionSort _ _).map File.name).trans (List.perm_insertionSort _ _).symm
  · exact List.pairwise_map.mpr (List.pairwise_insertionSort (fun f g : File => f.name ≤ g.name) _)

theorem nodup_listing (q : Queue) : ((listing q).map File.name).Nodup :=
  map_listing q ▸ nodup_readDir q

theorem listing_drop (h : listing q = f :: rest) :
    listing (q.keep (fun g => g.name ≠ f.name)) = rest := by
  have hsorted := List.pairwise_insertionSort (fun f g : File => f.name ≤ g.name) q.rows
  have hnodup := nodup_listing q
  change (listing q).Pairwise _ at hsorted
  rw [h] at hsorted hnodup
  rw [List.map_cons] at hnodup
  have hperm : (listing (q.keep (fun g => g.name ≠ f.name))).Perm rest := by
    have hrest : (f :: rest).filter (fun g => g.name ≠ f.name) = rest := by
      rw [List.filter_cons_of_neg (by simp)]
      apply List.filter_eq_self.mpr
      intro g hg
      apply decide_eq_true
      intro heq
      exact (List.nodup_cons.mp hnodup).1 (heq ▸ List.mem_map_of_mem hg)
    rw [← hrest, ← h]
    exact (List.perm_insertionSort _ _).trans ((List.perm_insertionSort _ q.rows).symm.filter _)
  apply hperm.eq_of_pairwise _ (List.pairwise_insertionSort _ _) (List.pairwise_cons.mp hsorted).2
  intro a b ha hb hab hba
  have hmem : ∀ g ∈ rest, g ∈ q := fun g hg => mem_listing.mp (h ▸ List.mem_cons_of_mem f hg)
  exact Table.eq_of_key (hmem a (hperm.subset ha)) (hmem b hb) (le_antisymm hab hba)

theorem find?_of_mem_listing (hf : f ∈ listing q) : q.find? f.name = some f :=
  Table.find?_eq_some.mpr ⟨mem_listing.mp hf, rfl⟩

theorem listedSize_eq (q : Queue) :
    listedSize q (readDir q) = ((listing q).map (fun f => (f.size : ℤ))).sum := by
  rw [listedSize, ← map_listing, List.map_map]
  congr 1
  apply List.map_congr_left
  intro f hf
  rw [Function.comp_apply, find?_of_mem_listing hf]
  rfl

end Listing

section Loop

variable {now size : ℤ} {s : Spool} {files : List File}

theorem pruneFiles_cons {f : File} {rest : List File} (hjson : isSample f.name = true)
    (hf : s.queue.find? f.name = some f) :
    pruneFiles now ((f :: rest).map File.name) size s =
      if size ≤ capacity ∧ now - f.modified ≤ maxAge then pruneFiles now (rest.map File.name) size s
      else pruneFiles now (rest.map File.name) (size - f.size) (s.drop f.name) := by
  rw [List.map_cons, pruneFiles, if_neg (by simp [hjson]), hf]

theorem pruneFiles_fits (hjson : ∀ f ∈ files, isSample f.name = true)
    (hfound : ∀ f ∈ files, s.queue.find? f.name = some f) (hsize : size ≤ capacity)
    (hages : ∀ f ∈ files, now - f.modified ≤ maxAge) :
    pruneFiles now (files.map File.name) size s = s := by
  induction files with
  | nil => rfl
  | cons f rest ih =>
    rw [List.forall_mem_cons] at hjson hfound hages
    rw [pruneFiles_cons hjson.1 hfound.1, if_pos ⟨hsize, hages.1⟩]
    exact ih hjson.2 hfound.2 hages.2

/-- The loop removes the files from the oldest on until the rest may stay. -/
theorem pruneFiles_spec (now : ℤ) (hjson : ∀ f ∈ files, isSample f.name = true)
    (htimes : files.Pairwise (fun f g => f.modified ≤ g.modified)) (hlist : listing s.queue = files)
    (hsize : size = (files.map (fun f => (f.size : ℤ))).sum) :
    ∃ gone kept, files = gone ++ kept ∧
      listing (pruneFiles now (files.map File.name) size s).queue = kept ∧ Fits now kept ∧
      (∀ kept', kept' <:+ files → Fits now kept' → kept'.length ≤ kept.length) ∧
      (pruneFiles now (files.map File.name) size s).dropped = s.dropped + gone.length ∧
      (pruneFiles now (files.map File.name) size s).saved =
        if gone = [] then s.saved
        else some (pruneFiles now (files.map File.name) size s).dropped := by
  induction files generalizing size s with
  | nil =>
    refine ⟨[], [], rfl, hlist, ⟨by decide, fun f hf => absurd hf List.not_mem_nil⟩, ?_, ?_, rfl⟩
    · intro kept' hsuffix _
      rw [List.suffix_nil.mp hsuffix]
    · exact (add_zero s.dropped).symm
  | cons f rest ih =>
    have hfound : ∀ g ∈ f :: rest, s.queue.find? g.name = some g :=
      fun g hg => find?_of_mem_listing (hlist ▸ hg)
    obtain ⟨holdest, hrest⟩ := List.pairwise_cons.mp htimes
    by_cases hstay : size ≤ capacity ∧ now - f.modified ≤ maxAge
    · have hages : ∀ g ∈ f :: rest, now - g.modified ≤ maxAge := by
        rw [List.forall_mem_cons]
        refine ⟨hstay.2, ?_⟩
        intro g hg
        have hlater := holdest g hg
        omega
      rw [pruneFiles_fits hjson hfound hstay.1 hages]
      refine ⟨[], f :: rest, rfl, hlist, ⟨hsize ▸ hstay.1, hages⟩, ?_, ?_, rfl⟩
      · exact fun kept' hsuffix _ => hsuffix.length_le
      · exact (add_zero s.dropped).symm
    · rw [pruneFiles_cons (hjson f List.mem_cons_self) (hfound f List.mem_cons_self), if_neg hstay]
      have hsum : size - f.size = (rest.map (fun g => (g.size : ℤ))).sum := by
        rw [hsize, List.map_cons, List.sum_cons, add_sub_cancel_left]
      obtain ⟨gone, kept, hsplit, hlisting, hfits, hlongest, hdropped, hsaved⟩ :=
        ih (fun g hg => hjson g (List.mem_cons_of_mem f hg)) hrest (s := s.drop f.name)
          (listing_drop hlist) hsum
      refine ⟨f :: gone, kept, congrArg (List.cons f) hsplit, hlisting, hfits, ?_, ?_, ?_⟩
      · intro kept' hsuffix hfits'
        rcases List.suffix_cons_iff.mp hsuffix with rfl | hlater
        · exact absurd ⟨hsize ▸ hfits'.1, hfits'.2 f List.mem_cons_self⟩ hstay
        · exact hlongest kept' hlater hfits'
      · rw [hdropped, List.length_cons]
        change s.dropped + 1 + _ = _
        push_cast
        ring
      · rw [hsaved, if_neg (List.cons_ne_nil f gone)]
        split_ifs with hnone
        · rw [hdropped, hnone]
          exact congrArg some (add_zero _).symm
        · rfl

end Loop

/-- A cleanup leaves the longest run of newest files that is within the limits, counts the others,
and has nothing to do a second time. -/
theorem pruneQueue_longest (now : ℤ) (s : Spool) (hjson : ∀ f ∈ s.queue, isSample f.name = true)
    (htimes : ∀ f ∈ s.queue, ∀ g ∈ s.queue, f.name ≤ g.name → f.modified ≤ g.modified) :
    (∃ gone kept, listing s.queue = gone ++ kept ∧ listing (pruneQueue now s).queue = kept ∧
      Fits now kept ∧
      (∀ kept', kept' <:+ listing s.queue → Fits now kept' → kept'.length ≤ kept.length) ∧
      (pruneQueue now s).dropped = s.dropped + gone.length ∧
      (pruneQueue now s).saved =
        if gone = [] then s.saved else some (pruneQueue now s).dropped) ∧
    pruneQueue now (pruneQueue now s) = pruneQueue now s := by
  have hsorted : (listing s.queue).Pairwise (fun f g => f.modified ≤ g.modified) := by
    apply (List.pairwise_insertionSort (fun f g : File => f.name ≤ g.name) _).imp_of_mem
    exact fun hf hg hle => htimes _ (mem_listing.mp hf) _ (mem_listing.mp hg) hle
  have hspec := pruneFiles_spec now (fun f hf => hjson f (mem_listing.mp hf)) hsorted rfl rfl
  rw [← listedSize_eq, map_listing] at hspec
  refine ⟨hspec, ?_⟩
  obtain ⟨gone, kept, hsplit, hlisting, hfits, -⟩ := hspec
  have hkept : ∀ f ∈ kept, isSample f.name = true := fun f hf =>
    hjson f (mem_listing.mp (hsplit ▸ List.mem_append_right gone hf))
  change listing (pruneQueue now s).queue = kept at hlisting
  subst hlisting
  rw [pruneQueue, listedSize_eq, ← map_listing]
  exact pruneFiles_fits hkept (fun f hf => find?_of_mem_listing hf) hfits.1 hfits.2

/-- Two files of 60 MiB, an hour apart. -/
def twoFiles : Spool where
  queue := (Table.empty.put ⟨"001.json", {}, 60 * 1024 * 1024, 0⟩).put
    ⟨"002.json", {}, 60 * 1024 * 1024, 3600000⟩
  dropped := 7
  saved := none

theorem pruneQueue_longest_capacity :
    pruneQueue 3600000 (pruneQueue 3600000 twoFiles) = pruneQueue 3600000 twoFiles ∧
      (pruneQueue 3600000 twoFiles).dropped = 8 ∧ (pruneQueue 3600000 twoFiles).saved = some 8 :=
  ⟨(pruneQueue_longest 3600000 twoFiles
      (show ∀ f ∈ twoFiles.queue.rows, isSample f.name = true by decide +kernel)
      (show ∀ f ∈ twoFiles.queue.rows, ∀ g ∈ twoFiles.queue.rows,
        f.name ≤ g.name → f.modified ≤ g.modified by decide +kernel)).2,
    by decide +kernel, by decide +kernel⟩

end CardScope.Agent.Pruning
