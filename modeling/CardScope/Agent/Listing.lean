import CardScope.Agent.Batches
import CardScope.Library.Decimal

/-! # Batches over any directory

A directory may also hold files that cannot be decoded or read and files that are no samples. They
are passed over, and only what was accepted is removed. The context can be cancelled at any time.
-/

namespace CardScope.Agent.Listing
open Library Model

inductive Content where
  | sample (s : Snapshot)
  | malformed
  | unreadable
deriving DecidableEq

structure Entry where
  name : String
  content : Content
deriving DecidableEq

abbrev Dir := Table Entry Entry.name

/-- What a batch meets: whether the context is cancelled when it comes to an entry, and for each
post the clock and whether the post succeeds. -/
structure Conditions where
  cancelled : ℕ → Bool
  clock : ℕ → ℤ
  accepts : ℕ → Bool

structure Post where
  name : String
  sent : Snapshot
  accepted : Bool

/-- What a batch did and what it left. -/
structure Batch where
  examined : List String := []
  posts : List Post := []
  dir : Dir

def Batch.pass (name : String) (b : Batch) : Batch := { b with examined := name :: b.examined }

def Batch.post (p : Post) (b : Batch) : Batch :=
  { b with examined := p.name :: b.examined, posts := p :: b.posts }

def newestFirst (names : List String) : List String := names.getLast?.toList ++ names.dropLast

def names (d : Dir) : List String := (d.rows.map Entry.name).insertionSort (· ≤ ·)

/-- The loop at its entry `i`, after `n` posts. -/
def uploadEntries (c : Config) (e : Conditions) : ℕ → ℕ → Dir → List String → Batch
  | _, _, d, [] => { dir := d }
  | i, n, d, name :: rest =>
    if i ≥ 20 || e.cancelled i then { dir := d }
    else if !isSample name then (uploadEntries c e (i + 1) n d rest).pass name
    else match (d.find? name).map Entry.content with
      | none | some .unreadable | some .malformed => (uploadEntries c e (i + 1) n d rest).pass name
      | some (.sample s) =>
        let p : Post := ⟨name, c.stamp (e.clock n) s, e.accepts n⟩
        if p.accepted then
          (uploadEntries c e (i + 1) (n + 1) (d.keep (fun f => f.name ≠ name)) rest).post p
        else { examined := [name], posts := [p], dir := d }

def uploadBatch (c : Config) (e : Conditions) (d : Dir) : Batch :=
  uploadEntries c e 0 0 d (newestFirst (names d))

/-- The sample that would be sent for a name. -/
def sampleOf (d : Dir) (name : String) : Option Snapshot :=
  if isSample name then
    match (d.find? name).map Entry.content with
    | some (.sample s) => some s
    | _ => none
  else none

section Loop

variable {c : Config} {e : Conditions} {i n : ℕ} {d : Dir} {name : String} {rest : List String}

theorem uploadEntries_cases (c : Config) (e : Conditions) (i n : ℕ) (d : Dir) (name : String)
    (rest : List String) :
    (20 ≤ i ∨ e.cancelled i = true) ∧ uploadEntries c e i n d (name :: rest) = { dir := d } ∨
    (i < 20 ∧ e.cancelled i = false) ∧
      (sampleOf d name = none ∧
        uploadEntries c e i n d (name :: rest) = (uploadEntries c e (i + 1) n d rest).pass name ∨
      ∃ s, sampleOf d name = some s ∧
        (e.accepts n = true ∧ uploadEntries c e i n d (name :: rest) =
          (uploadEntries c e (i + 1) (n + 1) (d.keep (fun f => f.name ≠ name)) rest).post
            ⟨name, c.stamp (e.clock n) s, true⟩ ∨
        e.accepts n = false ∧ uploadEntries c e i n d (name :: rest) =
          { examined := [name], posts := [⟨name, c.stamp (e.clock n) s, false⟩], dir := d })) := by
  rw [uploadEntries]
  by_cases hstop : i ≥ 20 || e.cancelled i
  · rw [if_pos hstop]
    simp only [Bool.or_eq_true, decide_eq_true_eq] at hstop
    exact .inl ⟨hstop, rfl⟩
  · rw [if_neg hstop]
    simp only [Bool.or_eq_true, decide_eq_true_eq, not_or, not_le, Bool.not_eq_true] at hstop
    refine .inr ⟨hstop, ?_⟩
    unfold sampleOf
    cases hname : isSample name with
    | false => exact .inl ⟨rfl, rfl⟩
    | true =>
      rw [if_pos rfl, Bool.not_true, if_neg Bool.false_ne_true]
      cases hcontent : (d.find? name).map Entry.content with
      | none => exact .inl ⟨rfl, rfl⟩
      | some content =>
        cases content with
        | malformed => exact .inl ⟨rfl, rfl⟩
        | unreadable => exact .inl ⟨rfl, rfl⟩
        | sample s =>
          refine .inr ⟨s, rfl, ?_⟩
          cases haccepts : e.accepts n with
          | true => exact .inl ⟨rfl, if_pos rfl⟩
          | false => exact .inr ⟨rfl, if_neg Bool.false_ne_true⟩

theorem sampleOf_keep {name' : String} (h : name' ≠ name) :
    sampleOf (d.keep (fun f => f.name ≠ name)) name' = sampleOf d name' := by
  have hfind : (d.keep (fun f => f.name ≠ name)).find? name' = d.find? name' :=
    Table.find?_only (q := fun k => k ≠ name) (decide_eq_true h)
  rw [sampleOf, sampleOf, hfind]

/-- What the loop did with the entries from `i` on, after `n` posts. -/
structure Sends (c : Config) (e : Conditions) (i n : ℕ) (d : Dir) (rest : List String) (b : Batch) :
    Prop where
  examined : b.examined <+: rest
  bound : b.examined ≠ [] → i + b.examined.length ≤ 20
  uncancelled : ∀ j < b.examined.length, e.cancelled (i + j) = false
  stopped : b.examined.length < rest.length → 20 ≤ i + b.examined.length ∨
    e.cancelled (i + b.examined.length) = true ∨ ∃ p ∈ b.posts, p.accepted = false
  failed : ∀ p ∈ b.posts, p.accepted = false →
    b.posts.getLast? = some p ∧ b.examined.getLast? = some p.name
  posted : b.posts.map Post.name = b.examined.filter (fun name => (sampleOf d name).isSome)
  sent : ∀ p ∈ b.posts, ∃ s now, sampleOf d p.name = some s ∧ p.sent = c.stamp now s
  accepted : b.posts.map Post.accepted = (List.range b.posts.length).map (fun k => e.accepts (n + k))
  removed : ∀ f, f ∈ b.dir ↔ f ∈ d ∧ ∀ p ∈ b.posts, p.accepted = true → p.name ≠ f.name

theorem Sends.mem_examined {b : Batch} (h : Sends c e i n d rest b) {p : Post} (hp : p ∈ b.posts) :
    p.name ∈ b.examined := by
  have hmem : p.name ∈ b.posts.map Post.name := List.mem_map_of_mem hp
  rw [h.posted] at hmem
  exact (List.mem_filter.mp hmem).1

theorem Sends.stop (h : rest = [] ∨ 20 ≤ i ∨ e.cancelled i = true) :
    Sends c e i n d rest { dir := d } where
  examined := List.nil_prefix
  bound := fun h => absurd rfl h
  uncancelled := fun j hj => absurd hj (Nat.not_lt_zero j)
  stopped := by
    intro hshort
    rcases h with rfl | h
    · exact absurd hshort (Nat.lt_irrefl 0)
    · exact h.imp id .inl
  failed := fun _ hp => absurd hp List.not_mem_nil
  posted := rfl
  sent := fun _ hp => absurd hp List.not_mem_nil
  accepted := rfl
  removed := fun _ => ⟨fun hf => ⟨hf, fun _ hp => absurd hp List.not_mem_nil⟩, And.left⟩

theorem length_cons_le {l : List String} (hi : i < 20)
    (h : l ≠ [] → i + 1 + l.length ≤ 20) : i + (l.length + 1) ≤ 20 := by
  cases l with
  | nil => exact hi
  | cons x l =>
    have := h (List.cons_ne_nil x l)
    omega

theorem uncancelled_cons {k : ℕ} (hi : e.cancelled i = false)
    (h : ∀ j < k, e.cancelled (i + 1 + j) = false) : ∀ j < k + 1, e.cancelled (i + j) = false := by
  intro j hj
  cases j with
  | zero => exact hi
  | succ j =>
    have hlater := h j (Nat.lt_of_succ_lt_succ hj)
    rwa [Nat.add_right_comm] at hlater

theorem Sends.pass {b : Batch} (hi : i < 20 ∧ e.cancelled i = false) (hname : sampleOf d name = none)
    (h : Sends c e (i + 1) n d rest b) : Sends c e i n d (name :: rest) (b.pass name) where
  examined := (List.prefix_cons_inj name).mpr h.examined
  bound := fun _ => length_cons_le hi.1 h.bound
  uncancelled := uncancelled_cons hi.2 h.uncancelled
  stopped := by
    intro hshort
    have hlater := h.stopped (Nat.lt_of_succ_lt_succ hshort)
    rwa [Nat.add_right_comm, Nat.add_assoc] at hlater
  failed := by
    intro p hp hfailed
    obtain ⟨hlast, hname⟩ := h.failed p hp hfailed
    refine ⟨hlast, ?_⟩
    rw [Batch.pass, List.getLast?_cons, hname]
    rfl
  posted := by
    rw [Batch.pass, List.filter_cons_of_neg (by simp [hname])]
    exact h.posted
  sent := h.sent
  accepted := h.accepted
  removed := h.removed

theorem Sends.post {b : Batch} {s : Snapshot} (hi : i < 20 ∧ e.cancelled i = false)
    (hsample : sampleOf d name = some s) (haccepts : e.accepts n = true) (hnew : name ∉ rest)
    (h : Sends c e (i + 1) (n + 1) (d.keep (fun f => f.name ≠ name)) rest b) :
    Sends c e i n d (name :: rest) (b.post ⟨name, c.stamp (e.clock n) s, true⟩) where
  examined := (List.prefix_cons_inj name).mpr h.examined
  bound := fun _ => length_cons_le hi.1 h.bound
  uncancelled := uncancelled_cons hi.2 h.uncancelled
  stopped := by
    intro hshort
    have hlater := h.stopped (Nat.lt_of_succ_lt_succ hshort)
    rw [Nat.add_right_comm, Nat.add_assoc] at hlater
    refine hlater.imp id (Or.imp id ?_)
    rintro ⟨p, hp, hfailed⟩
    exact ⟨p, List.mem_cons_of_mem _ hp, hfailed⟩
  failed := by
    intro p hp hfailed
    rcases List.mem_cons.mp hp with rfl | hp
    · cases hfailed
    · obtain ⟨hlast, hname⟩ := h.failed p hp hfailed
      rw [Batch.post, List.getLast?_cons, List.getLast?_cons, hlast, hname]
      exact ⟨rfl, rfl⟩
  posted := by
    rw [Batch.post, List.map_cons, h.posted, List.filter_cons_of_pos (by simp [hsample])]
    apply congrArg (List.cons name)
    apply List.filter_congr
    intro other hother
    have hne : other ≠ name := fun heq => hnew (heq ▸ h.examined.subset hother)
    rw [sampleOf_keep hne]
  sent := by
    intro p hp
    rcases List.mem_cons.mp hp with rfl | hp
    · exact ⟨s, e.clock n, hsample, rfl⟩
    · obtain ⟨t, now, ht, hsent⟩ := h.sent p hp
      have hother : p.name ≠ name := by
        intro heq
        exact hnew (heq ▸ h.examined.subset (h.mem_examined hp))
      exact ⟨t, now, sampleOf_keep hother ▸ ht, hsent⟩
  accepted := by
    rw [Batch.post, List.map_cons, List.length_cons, h.accepted, List.range_succ_eq_map, List.map_cons,
      List.map_map]
    apply congrArg₂ List.cons haccepts.symm
    apply List.map_congr_left
    intro k _
    rw [Function.comp_apply, Nat.succ_eq_add_one, Nat.add_right_comm, Nat.add_assoc]
  removed := by
    intro f
    rw [Batch.post, h.removed, Table.mem_keep, decide_eq_true_eq, List.forall_mem_cons]
    constructor
    · rintro ⟨⟨hf, hne⟩, hkept⟩
      exact ⟨hf, fun _ => Ne.symm hne, hkept⟩
    · rintro ⟨hf, hne, hkept⟩
      exact ⟨⟨hf, Ne.symm (hne rfl)⟩, hkept⟩

theorem Sends.fail {s : Snapshot} (hi : i < 20 ∧ e.cancelled i = false)
    (hsample : sampleOf d name = some s) (haccepts : e.accepts n = false) :
    Sends c e i n d (name :: rest)
      { examined := [name], posts := [⟨name, c.stamp (e.clock n) s, false⟩], dir := d } where
  examined := (List.prefix_cons_inj name).mpr List.nil_prefix
  bound := fun _ => hi.1
  uncancelled := uncancelled_cons hi.2 (fun j hj => absurd hj (Nat.not_lt_zero j))
  stopped := fun _ => .inr (.inr ⟨_, List.mem_cons_self, rfl⟩)
  failed := by
    intro p hp _
    obtain rfl := List.mem_singleton.mp hp
    exact ⟨rfl, rfl⟩
  posted := by
    rw [List.filter_cons_of_pos (by simp [hsample])]
    rfl
  sent := by
    intro p hp
    obtain rfl := List.mem_singleton.mp hp
    exact ⟨s, e.clock n, hsample, rfl⟩
  accepted := congrArg (fun ok => [ok]) haccepts.symm
  removed := by
    intro f
    refine ⟨fun hf => ⟨hf, ?_⟩, And.left⟩
    intro p hp hok
    obtain rfl := List.mem_singleton.mp hp
    cases hok

theorem sends_uploadEntries (hnodup : rest.Nodup) (c : Config) (e : Conditions) (i n : ℕ) (d : Dir) :
    Sends c e i n d rest (uploadEntries c e i n d rest) := by
  induction rest generalizing i n d with
  | nil => exact Sends.stop (.inl rfl)
  | cons name rest ih =>
    obtain ⟨hnew, hrest⟩ := List.nodup_cons.mp hnodup
    rcases uploadEntries_cases c e i n d name rest with ⟨hstop, heq⟩ |
      ⟨hi, ⟨hname, heq⟩ | ⟨s, hsample, ⟨haccepts, heq⟩ | ⟨haccepts, heq⟩⟩⟩
    · exact heq ▸ Sends.stop (.inr hstop)
    · exact heq ▸ (ih hrest (i + 1) n d).pass hi hname
    · exact heq ▸ (ih hrest (i + 1) (n + 1) _).post hi hsample haccepts hnew
    · exact heq ▸ Sends.fail hi hsample haccepts

end Loop

/-! ## The order -/

section Order

variable {d : Dir} {s t : Snapshot}

theorem names_perm (d : Dir) : (names d).Perm (d.rows.map Entry.name) := List.perm_insertionSort _ _

theorem newestFirst_perm (l : List String) : (newestFirst l).Perm l := by
  induction l using List.reverseRecOn with
  | nil => exact List.Perm.refl _
  | append_singleton front newest _ =>
    simpa [newestFirst] using (List.perm_append_singleton newest front).symm

theorem newestFirst_sorted {l : List String} (hl : l.Pairwise (· ≤ ·)) {first : String}
    {rest : List String} (h : newestFirst l = first :: rest) :
    (∀ name ∈ rest, name ≤ first) ∧ rest.Pairwise (· ≤ ·) := by
  induction l using List.reverseRecOn with
  | nil => cases h
  | append_singleton front newest _ =>
    have hsplit : newestFirst (front ++ [newest]) = newest :: front := by simp [newestFirst]
    obtain ⟨rfl, rfl⟩ := List.cons_eq_cons.mp (hsplit.symm.trans h)
    rw [List.pairwise_append] at hl
    exact ⟨fun name hname => hl.2.2 name hname newest List.mem_cons_self, hl.1⟩

theorem length_digits {width k : ℕ} (hwidth : 0 < width) (hk : k < 10 ^ width) :
    (digits width k).length = width := by
  have hle := (Nat.length_toDigits_le_iff (by decide) hwidth).mpr hk
  rw [digits, List.length_leftpad]
  omega

theorem decimal_digits (width k : ℕ) : Decimal (digits width k) := by
  intro c hc
  rcases List.mem_append.mp hc with hc | hc
  · rw [List.eq_of_mem_replicate hc]
    decide
  · exact Nat.isDigit_of_mem_toDigits (by decide) (by decide) hc

theorem ofDigitChars_digits (width k : ℕ) : Nat.ofDigitChars 10 (digits width k) 0 = k := by
  rw [digits, List.leftpad, Nat.ofDigitChars_append, Nat.ofDigitChars_replicate_zero, mul_zero,
    Nat.ofDigitChars_ten_toDigits]

theorem le_of_digits_le {width m n : ℕ} (hwidth : 0 < width) (hm : m < 10 ^ width)
    (hn : n < 10 ^ width) {us vs : List Char} (h : digits width m ++ us ≤ digits width n ++ vs) :
    m ≤ n := by
  have hlength : (digits width m).length = (digits width n).length := by
    rw [length_digits hwidth hm, length_digits hwidth hn]
  have hle := ofDigitChars_mono (decimal_digits width m) (decimal_digits width n) hlength h 0
  rwa [ofDigitChars_digits, ofDigitChars_digits] at hle

theorem toList_fileName (s : Snapshot) : (fileName s).toList =
    padded 13 s.atMs ++ '-' :: (s.bootID.toList ++ '-' :: (padded 10 s.seq ++ ".json".toList)) :=
  String.toList_ofList

/-- The order of the names is that of the sampling times. -/
theorem atMs_le_of_fileName_le (hs : 0 ≤ s.atMs ∧ s.atMs < 10 ^ 13) (ht : 0 ≤ t.atMs ∧ t.atMs < 10 ^ 13)
    (h : fileName s ≤ fileName t) : s.atMs ≤ t.atMs := by
  have hchars : (fileName s).toList ≤ (fileName t).toList := String.le_iff_toList_le.mp h
  rw [toList_fileName, toList_fileName, padded_of_nonneg hs.1, padded_of_nonneg ht.1] at hchars
  have hle : s.atMs.natAbs ≤ t.atMs.natAbs := by
    have hm : s.atMs.natAbs < 10 ^ 13 := by omega
    have hn : t.atMs.natAbs < 10 ^ 13 := by omega
    exact le_of_digits_le (by decide) hm hn hchars
  omega

/-- The files are samples under the names that the sampling loop gives them, with times of 13
digits. -/
def Written (d : Dir) : Prop :=
  ∀ f ∈ d, ∃ s, f = ⟨fileName s, .sample s⟩ ∧ 10 ^ 12 ≤ s.atMs ∧ s.atMs < 10 ^ 13

theorem Written.sampleOf (h : Written d) {name : String} (hname : name ∈ names d) :
    ∃ s, Listing.sampleOf d name = some s ∧ name = fileName s ∧ 10 ^ 12 ≤ s.atMs ∧
      s.atMs < 10 ^ 13 := by
  obtain ⟨f, hf, rfl⟩ := List.mem_map.mp ((names_perm d).mem_iff.mp hname)
  obtain ⟨s, rfl, hs⟩ := h f hf
  refine ⟨s, ?_, rfl, hs⟩
  rw [Listing.sampleOf, if_pos (isSample_fileName s), Table.find?_eq_some.mpr ⟨hf, rfl⟩]
  rfl

/-- In a directory that the sampling loop has written, everything examined is sent. -/
theorem Written.posts (h : Written d) {c : Config} {e : Conditions} {b : Batch} {order : List String}
    (horder : order.Perm (names d)) (hb : Sends c e 0 0 d order b) :
    b.posts.map Post.name <+: order ∧
      ∀ p ∈ b.posts, ∃ s, p.name = fileName s ∧ p.sent.atMs = s.atMs ∧
        10 ^ 12 ≤ s.atMs ∧ s.atMs < 10 ^ 13 := by
  constructor
  · rw [hb.posted, List.filter_eq_self.mpr]
    · exact hb.examined
    · intro name hname
      obtain ⟨s, hs, -⟩ := h.sampleOf (horder.mem_iff.mp (hb.examined.subset hname))
      rw [hs]
      rfl
  · intro p hp
    obtain ⟨s, now, hs, hsent⟩ := hb.sent p hp
    have hname : p.name ∈ names d := horder.mem_iff.mp (hb.examined.subset (hb.mem_examined hp))
    obtain ⟨t, ht, hfile, htime⟩ := h.sampleOf hname
    obtain rfl := Option.some_inj.mp (hs.symm.trans ht)
    refine ⟨s, hfile, ?_, htime⟩
    rw [hsent]
    rfl

/-- The newest sample is sent first and the others from the oldest on. -/
theorem Written.newest_first (h : Written d) {c : Config} {e : Conditions} {b : Batch}
    (hb : Sends c e 0 0 d (newestFirst (names d)) b) {first : Post} {later : List Post}
    (hposts : b.posts = first :: later) :
    (∀ f ∈ d, ∀ s, f.content = .sample s → s.atMs ≤ first.sent.atMs) ∧
      later.Pairwise (fun p q => p.sent.atMs ≤ q.sent.atMs) := by
  have horder := newestFirst_perm (names d)
  obtain ⟨hfront, hall⟩ := h.posts horder hb
  rw [hposts] at hfront hall
  obtain ⟨rest, hrest⟩ := hfront
  rw [List.map_cons, List.cons_append] at hrest
  obtain ⟨hgreatest, hsorted⟩ := newestFirst_sorted (List.pairwise_insertionSort _ _) hrest.symm
  have htimes : ∀ p ∈ first :: later, ∀ q ∈ first :: later, p.name ≤ q.name →
      p.sent.atMs ≤ q.sent.atMs := by
    intro p hp q hq hle
    obtain ⟨s, hs, hsent, hstime⟩ := hall p hp
    obtain ⟨t, ht, htent, httime⟩ := hall q hq
    rw [hsent, htent]
    exact atMs_le_of_fileName_le (by omega) (by omega) (hs ▸ ht ▸ hle)
  constructor
  · intro f hf s hs
    obtain ⟨t, ht, htime⟩ := h f hf
    obtain rfl : s = t := by
      rw [ht] at hs
      exact (Content.sample.inj hs).symm
    obtain ⟨u, hu, hsent, hutime⟩ := hall first List.mem_cons_self
    have hname : f.name ∈ newestFirst (names d) :=
      horder.mem_iff.mpr ((names_perm d).mem_iff.mpr (List.mem_map_of_mem hf))
    have hle : f.name ≤ first.name := by
      rw [← hrest] at hname
      rcases List.mem_cons.mp hname with heq | hmem
      · exact heq.le
      · exact hgreatest _ hmem
    rw [hsent]
    rw [ht, hu] at hle
    exact atMs_le_of_fileName_le (by omega) (by omega) hle
  · have hnames : (later.map Post.name).Pairwise (· ≤ ·) :=
      (List.pairwise_append.mp hsorted).1
    apply (List.pairwise_map.mp hnames).imp_of_mem
    intro p q hp hq hle
    exact htimes p (List.mem_cons_of_mem first hp) q (List.mem_cons_of_mem first hq) hle

end Order

/-- One batch goes through the greatest name and then the others in order, 20 at most, until a post
fails or the context is cancelled, and removes what was accepted. -/
theorem uploadBatch_spec (c : Config) (e : Conditions) (d : Dir) :
    let b := uploadBatch c e d
    let order := newestFirst (names d)
    (order.Perm (d.rows.map Entry.name) ∧ ∀ first rest, order = first :: rest →
      (∀ name ∈ rest, name ≤ first) ∧ rest.Pairwise (· ≤ ·)) ∧
    (b.examined <+: order ∧ b.examined.length ≤ 20) ∧
    ((∀ j < b.examined.length, e.cancelled j = false) ∧
      (∀ p ∈ b.posts, p.accepted = false →
        b.posts.getLast? = some p ∧ b.examined.getLast? = some p.name) ∧
      (b.examined.length < order.length → b.examined.length = 20 ∨
        e.cancelled b.examined.length = true ∨ ∃ p ∈ b.posts, p.accepted = false)) ∧
    (b.posts.map Post.name = b.examined.filter (fun name => (sampleOf d name).isSome) ∧
      b.posts.map Post.accepted = (List.range b.posts.length).map e.accepts ∧
      ∀ p ∈ b.posts, ∃ s now, sampleOf d p.name = some s ∧ p.sent = c.stamp now s) ∧
    (∀ f, f ∈ b.dir ↔ f ∈ d ∧ ∀ p ∈ b.posts, p.accepted = true → p.name ≠ f.name) ∧
    (Written d → ∀ first later, b.posts = first :: later →
      (∀ f ∈ d, ∀ s, f.content = .sample s → s.atMs ≤ first.sent.atMs) ∧
        later.Pairwise (fun p q => p.sent.atMs ≤ q.sent.atMs)) := by
  intro b order
  have hnodup : order.Nodup :=
    ((newestFirst_perm _).trans (names_perm d)).nodup_iff.mpr d.nodup
  have hb : Sends c e 0 0 d order b := sends_uploadEntries hnodup c e 0 0 d
  have hbound : b.examined.length ≤ 20 := by
    by_cases hnone : b.examined = []
    · rw [hnone]
      exact Nat.zero_le 20
    · simpa using hb.bound hnone
  refine ⟨⟨(newestFirst_perm _).trans (names_perm d), fun first rest h =>
      newestFirst_sorted (List.pairwise_insertionSort _ _) h⟩,
    ⟨hb.examined, hbound⟩, ⟨?_, hb.failed, ?_⟩, ⟨hb.posted, ?_, hb.sent⟩, hb.removed,
    fun h first later hposts => h.newest_first hb hposts⟩
  · intro j hj
    simpa using hb.uncancelled j hj
  · intro hshort
    have hstop := hb.stopped hshort
    rw [Nat.zero_add] at hstop
    exact hstop.imp (fun h => le_antisymm hbound h) id
  · simpa using hb.accepted

/-- A directory with two samples of one start. -/
def twoSamples : Dir :=
  (Table.empty.put ⟨"1700000041000-0f-0000000001.json",
      .sample { atMs := 1700000041000, bootID := "0f", seq := 1 }⟩).put
    ⟨"1700000046000-0f-0000000002.json",
      .sample { atMs := 1700000046000, bootID := "0f", seq := 2 }⟩

theorem written_twoSamples : Written twoSamples := by
  intro f hf
  rcases Table.mem_put.mp hf with rfl | ⟨hf, -⟩
  · exact ⟨_, congrArg₂ Entry.mk (by decide) rfl, by decide⟩
  · rcases Table.mem_put.mp hf with rfl | ⟨hf, -⟩
    · exact ⟨_, congrArg₂ Entry.mk (by decide) rfl, by decide⟩
    · exact absurd hf (Table.not_mem_empty f)

theorem uploadBatch_spec_two :
    ∀ f ∈ twoSamples, ∀ s, f.content = .sample s → s.atMs ≤ 1700000046000 := by
  obtain ⟨-, -, -, -, -, hnewest⟩ :=
    uploadBatch_spec ⟨"n", 5⟩ ⟨fun _ => false, fun _ => 0, fun _ => true⟩ twoSamples
  have hfirst : ((uploadBatch ⟨"n", 5⟩ ⟨fun _ => false, fun _ => 0, fun _ => true⟩
      twoSamples).posts.head?.map (fun p => p.sent.atMs)) = some 1700000046000 := by
    decide +kernel
  obtain ⟨first, hhead, htime⟩ := Option.map_eq_some_iff.mp hfirst
  obtain ⟨later, hposts⟩ := List.head?_eq_some_iff.mp hhead
  exact htime ▸ (hnewest written_twoSamples first later hposts).1

/-! ## Queues of samples -/

section Queues

def ofQueue (q : Queue) : Dir where
  rows := q.rows.map (fun f => ⟨f.name, .sample f.snapshot⟩)
  nodup := by
    rw [List.map_map]
    exact q.nodup

def Conditions.remote (e : Conditions) : Remote ℕ where
  clock := e.clock
  post := fun n _ => (e.accepts n, n + 1)

variable {c : Config} {e : Conditions} {i n : ℕ} {q : Queue} {name : String}

theorem find?_ofQueue : (ofQueue q).find? name =
    (q.find? name).map (fun f => ⟨f.name, .sample f.snapshot⟩) := List.find?_map

theorem ofQueue_keep : ofQueue (q.keep (fun f => f.name ≠ name)) =
    (ofQueue q).keep (fun f => f.name ≠ name) := by
  apply Table.ext_rows
  change (q.rows.filter _).map _ = (q.rows.map _).filter _
  rw [List.filter_map]
  rfl

theorem sampleOf_ofQueue : sampleOf (ofQueue q) name =
    if isSample name then (q.find? name).map File.snapshot else none := by
  rw [sampleOf, find?_ofQueue]
  cases q.find? name <;> rfl

theorem dir_uploadEntries (hquiet : ∀ j, e.cancelled j = false) (rest : List String) :
    (uploadEntries c e i n (ofQueue q) rest).dir =
      ofQueue (sendFiles c e.remote n q (rest.take (20 - i))).2 := by
  induction rest generalizing i n q with
  | nil => rw [List.take_nil]; rfl
  | cons name rest ih =>
    rcases uploadEntries_cases c e i n (ofQueue q) name rest with ⟨hstop, heq⟩ |
      ⟨hi, ⟨hname, heq⟩ | ⟨s, hsample, hcase⟩⟩
    · have hi : 20 - i = 0 := by
        rcases hstop with hi | hcancelled
        · omega
        · rw [hquiet] at hcancelled
          cases hcancelled
      rw [heq, hi]
      rfl
    all_goals
      obtain ⟨k, hk⟩ : ∃ k, 20 - i = k + 1 := ⟨19 - i, by omega⟩
      have hk' : 20 - (i + 1) = k := by omega
      rw [hk, List.take_succ_cons]
    · -- nothing is sent for this name
      have hskip : sendFiles c e.remote n q (name :: rest.take k) =
          sendFiles c e.remote n q (rest.take k) := by
        rw [sampleOf_ofQueue] at hname
        by_cases hjson : isSample name = true
        · rw [if_pos hjson, Option.map_eq_none_iff] at hname
          exact sendFiles_gone hjson hname
        · exact sendFiles_other hjson
      rw [heq, hskip, ← hk']
      exact ih
    · rw [sampleOf_ofQueue] at hsample
      split_ifs at hsample with hjson
      obtain ⟨f, hf, rfl⟩ := Option.map_eq_some_iff.mp hsample
      have hanswer : (e.remote.post n (c.stamp (e.remote.clock n) f.snapshot)).1 = e.accepts n := rfl
      rw [sendFiles_sample hjson hf]
      dsimp only
      rw [hanswer]
      rcases hcase with ⟨haccepts, heq⟩ | ⟨haccepts, heq⟩
      · rw [heq, haccepts, if_pos rfl, ← hk', ← ofQueue_keep]
        exact ih
      · rw [heq, haccepts, if_neg Bool.false_ne_true]

/-- Without cancellation a batch over a queue is that of the loop which sees samples only. -/
theorem uploadBatch_ofQueue (hquiet : ∀ j, e.cancelled j = false) (q : Queue) :
    (uploadBatch c e (ofQueue q)).dir = ofQueue (Agent.uploadBatch c e.remote 0 q).2 := by
  have hnames : names (ofQueue q) = readDir q := by
    rw [names, ofQueue, List.map_map]
    rfl
  rw [uploadBatch, dir_uploadEntries hquiet, hnames]
  rfl

end Queues

end CardScope.Agent.Listing
