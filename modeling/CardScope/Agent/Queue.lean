import CardScope.Model.Snapshot

/-! # The queue of the client

Samples wait in a directory, one file each. The name of a file begins with the sampling time, so
that the order of the names is the order of the samples, and it tells which sample the file holds.
-/

namespace CardScope.Agent
open Library Model

/-- A file of the queue. Its content is decoded: what is written is read back, as all metrics are
numbers. -/
structure File where
  name : String
  snapshot : Snapshot
  size : ℕ
  modified : ℤ
deriving DecidableEq

abbrev Queue := Table File File.name

/-- The identifier of one start of the client, drawn as hexadecimal digits. -/
structure BootID where
  text : String
  no_hyphen : '-' ∉ text.toList

def digits (width n : ℕ) : List Char := (Nat.toDigits 10 n).leftpad width '0'

/-- `%0*d`: a sign counts towards the width. -/
def padded (width : ℕ) (n : ℤ) : List Char :=
  if n < 0 then '-' :: digits (width - 1) n.natAbs else digits width n.natAbs

def fileName (s : Snapshot) : String :=
  String.ofList (padded 13 s.atMs ++ '-' :: (s.bootID.toList ++ '-' :: (padded 10 s.seq ++
    ".json".toList)))

def tempName (name : String) : String := name ++ ".tmp"

def isSample (name : String) : Bool := ".json".toList.isSuffixOf name.toList

def readDir (q : Queue) : List String := (q.rows.map File.name).insertionSort (· ≤ ·)

/-- What one batch of uploads visits: the newest file, then the others from the oldest on, 20 in
all. -/
def uploadOrder (names : List String) : List String :=
  (names.getLast?.toList ++ names.dropLast).take 20

def capacity : ℤ := 100 * 1024 * 1024

def maxAge : ℤ := 24 * 3600000

section Names

variable {s t : Snapshot}

theorem mem_digits {width n : ℕ} {c : Char} (hc : c ∈ digits width n) : c ≠ '-' := by
  rintro rfl
  rcases List.mem_append.mp hc with hc | hc
  · exact absurd (List.eq_of_mem_replicate hc) (by decide)
  · exact absurd (Nat.isDigit_of_mem_toDigits (by decide) (by decide) hc) (by decide)

theorem digits_injective (width : ℕ) : Function.Injective (digits width) := by
  intro m n h
  have hvalue : ∀ k, Nat.ofDigitChars 10 (digits width k) 0 = k := by
    intro k
    rw [digits, List.leftpad, Nat.ofDigitChars_append, Nat.ofDigitChars_replicate_zero, mul_zero,
      Nat.ofDigitChars_ten_toDigits]
  rw [← hvalue m, h, hvalue]

theorem split_last {α : Type*} {sep : α} {front back front' back' : List α} (hb : sep ∉ back)
    (hb' : sep ∉ back') (h : front ++ sep :: back = front' ++ sep :: back') :
    front = front' ∧ back = back' := by
  induction front generalizing front' with
  | nil =>
    cases front' with
    | nil => exact ⟨rfl, List.tail_eq_of_cons_eq h⟩
    | cons c front' =>
      rw [List.nil_append, List.cons_append, List.cons.injEq] at h
      exact absurd (by rw [h.2]; simp) hb
  | cons c front ih =>
    cases front' with
    | nil =>
      rw [List.nil_append, List.cons_append, List.cons.injEq] at h
      exact absurd (by rw [← h.2]; simp) hb'
    | cons c' front' =>
      rw [List.cons_append, List.cons_append, List.cons.injEq] at h
      obtain ⟨hfront, hback⟩ := ih h.2
      exact ⟨by rw [h.1, hfront], hback⟩

theorem padded_of_nonneg {width : ℕ} {n : ℤ} (h : 0 ≤ n) : padded width n = digits width n.natAbs :=
  if_neg (not_lt.mpr h)

/-- The name of a file tells the start of the client and the number of its sample. -/
theorem fileName_inj (hs : '-' ∉ s.bootID.toList) (ht : '-' ∉ t.bootID.toList) (hseq : 0 ≤ s.seq)
    (hseq' : 0 ≤ t.seq) (h : fileName s = fileName t) : s.bootID = t.bootID ∧ s.seq = t.seq := by
  have hsplit : ∀ r : Snapshot, 0 ≤ r.seq → (fileName r).toList =
      (padded 13 r.atMs ++ '-' :: r.bootID.toList) ++ '-' :: digits 10 r.seq.natAbs ++
        ".json".toList := by
    intro r hr
    simp [fileName, padded_of_nonneg hr]
  have hchars := congrArg String.toList h
  rw [hsplit s hseq, hsplit t hseq'] at hchars
  obtain ⟨hfront, hback⟩ := split_last (fun hc => mem_digits hc rfl) (fun hc => mem_digits hc rfl)
    (List.append_cancel_right hchars)
  obtain ⟨-, hboot⟩ := split_last hs ht hfront
  have habs : s.seq.natAbs = t.seq.natAbs := digits_injective 10 hback
  exact ⟨String.toList_inj.mp hboot, by omega⟩

example : fileName { atMs := 1700000041000, bootID := "0f", seq := 1 } =
    "1700000041000-0f-0000000001.json" := by decide

theorem isSample_fileName (s : Snapshot) : isSample (fileName s) = true := by
  apply List.isSuffixOf_iff_suffix.mpr
  rw [fileName, String.toList_ofList]
  exact ⟨padded 13 s.atMs ++ '-' :: (s.bootID.toList ++ '-' :: padded 10 s.seq), by simp⟩

theorem isSample_tempName (name : String) : isSample (tempName name) = false := by
  apply Bool.eq_false_iff.mpr
  intro h
  obtain ⟨front, hfront⟩ := List.isSuffixOf_iff_suffix.mp h
  rw [tempName, String.toList_append] at hfront
  have hlast := congrArg List.getLast? hfront
  rw [List.getLast?_append_of_ne_nil _ (by decide), List.getLast?_append_of_ne_nil _ (by decide)]
    at hlast
  exact absurd hlast (by decide)

end Names

end CardScope.Agent
