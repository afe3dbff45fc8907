import Mathlib

/-! # Replays of a backlog

One replay of a list visits its last entry and then some entries from the front, until one of them
fails. What it visits before that leaves the list. Entries that always fail block others: this is
what remains of a list when it is replayed again and again.
-/

namespace CardScope.Library

section Replay

variable {α : Type*} {n : ℕ} {good : α → Bool} {l front : List α} {a : α}

/-- The last entry, and `n` others from the front. -/
def visited (n : ℕ) (l : List α) : List α := (l.getLast?.toList ++ l.dropLast).take (n + 1)

theorem visited_concat (n : ℕ) (front : List α) (a : α) :
    visited n (front ++ [a]) = a :: front.take n := by
  simp [visited]

variable [DecidableEq α]

def replay (n : ℕ) (good : α → Bool) (l : List α) : List α :=
  l.filter (fun a => a ∉ (visited n l).takeWhile good)

theorem replay_sublist (l : List α) : (replay n good l).Sublist l := List.filter_sublist

theorem iterate_sublist (k : ℕ) (l : List α) : ((replay n good)^[k] l).Sublist l := by
  induction k generalizing l with
  | zero => exact List.Sublist.refl l
  | succ k ih => exact (ih _).trans (replay_sublist l)

theorem mem_iterate_of_bad (h : a ∈ l) (hbad : good a = false) (k : ℕ) :
    a ∈ (replay n good)^[k] l := by
  induction k generalizing l with
  | zero => exact h
  | succ k ih =>
    refine ih (List.mem_filter.mpr ⟨h, decide_eq_true (fun hmem => ?_)⟩)
    rw [List.mem_takeWhile_imp hmem] at hbad
    cases hbad

theorem replay_of_bad_last (hbad : good a = false) :
    replay n good (front ++ [a]) = front ++ [a] := by
  apply List.filter_eq_self.mpr
  intro b _
  rw [visited_concat, List.takeWhile_cons_of_neg (by simp [hbad])]
  exact decide_eq_true List.not_mem_nil

theorem filter_not_mem_take (h : l.Nodup) (k : ℕ) : l.filter (fun a => a ∉ l.take k) = l.drop k := by
  conv_lhs => rw [← List.take_append_drop k l]
  rw [← List.take_append_drop k l, List.nodup_append] at h
  rw [List.filter_append, List.take_append_drop]
  have htake : (l.take k).filter (fun a => a ∉ l.take k) = [] :=
    List.filter_eq_nil_iff.mpr (fun b hb => by simpa using hb)
  have hdrop : (l.drop k).filter (fun a => a ∉ l.take k) = l.drop k :=
    List.filter_eq_self.mpr (fun b hb => decide_eq_true (fun hb' => h.2.2 b hb' b hb rfl))
  rw [htake, hdrop, List.nil_append]

/-- When the last entry leaves, the entries in front of the first failure follow, `n` at most. -/
theorem replay_concat (hnodup : (front ++ [a]).Nodup) (hgood : good a = true) :
    replay n good (front ++ [a]) = front.drop (min n (front.takeWhile good).length) := by
  rw [List.nodup_append] at hnodup
  have ha : a ∉ front := fun h => hnodup.2.2 a h a (List.mem_singleton_self a) rfl
  have htake : (front.take n).takeWhile good =
      front.take (min n (front.takeWhile good).length) := by
    rw [← List.take_takeWhile, ← List.take_take]
    congr 1
    exact List.prefix_iff_eq_take.mp (List.takeWhile_prefix good)
  rw [replay, visited_concat, List.takeWhile_cons_of_pos hgood, List.filter_append, htake]
  have hlast : [a].filter (fun b =>
      b ∉ a :: front.take (min n (front.takeWhile good).length)) = [] := by simp
  have hfront : front.filter (fun b => b ∉ a :: front.take (min n (front.takeWhile good).length)) =
      front.filter (fun b => b ∉ front.take (min n (front.takeWhile good).length)) := by
    apply List.filter_congr
    intro b hb
    have hne : b ≠ a := fun h => ha (h ▸ hb)
    simp [hne]
  rw [hlast, hfront, List.append_nil, filter_not_mem_take hnodup.1]

theorem iterate_eq_nil (hnodup : l.Nodup) (hgood : ∀ a ∈ l, good a = true) {k : ℕ}
    (hk : l.length ≤ k) : (replay n good)^[k] l = [] := by
  induction k generalizing l with
  | zero => exact List.eq_nil_of_length_eq_zero (Nat.le_zero.mp hk)
  | succ k ih =>
    refine ih ((replay_sublist l).nodup hnodup)
      (fun a ha => hgood a ((replay_sublist l).subset ha)) ?_
    induction l using List.reverseRecOn with
    | nil => exact Nat.zero_le k
    | append_singleton front a _ =>
      rw [replay_concat hnodup (hgood a (by simp)), List.length_drop]
      rw [List.length_append, List.length_singleton] at hk
      omega

end Replay

/-! ## Failures between the oldest and the newest -/

section Blocked

variable {α : Type*} {n : ℕ} {good : α → Bool} {old mid new l : List α}

/-- The list is cut at its first and its last failure. -/
structure Cut (good : α → Bool) (old mid new : List α) : Prop where
  old_good : ∀ a ∈ old, good a = true
  new_good : ∀ a ∈ new, good a = true
  nonempty : mid ≠ []
  first_bad : good (mid.head nonempty) = false
  last_bad : good (mid.getLast nonempty) = false

theorem exists_cut {a : α} (ha : a ∈ l) (hbad : good a = false) :
    ∃ old mid new, l = old ++ mid ++ new ∧ Cut good old mid new := by
  have hsplit : l.takeWhile good ++ l.dropWhile good = l := List.takeWhile_append_dropWhile
  have hrest : a ∈ l.dropWhile good := by
    rw [← hsplit, List.mem_append] at ha
    apply ha.resolve_left
    intro h
    rw [List.mem_takeWhile_imp h] at hbad
    cases hbad
  have hmid : (l.dropWhile good).rdropWhile good ≠ [] := by
    rw [Ne, List.rdropWhile_eq_nil_iff]
    intro h
    rw [h a hrest] at hbad
    cases hbad
  have hne : l.dropWhile good ≠ [] := List.ne_nil_of_mem hrest
  have hhead : ((l.dropWhile good).rdropWhile good).head hmid = (l.dropWhile good).head hne :=
    (List.rdropWhile_prefix good _).head hmid
  refine ⟨l.takeWhile good, (l.dropWhile good).rdropWhile good, (l.dropWhile good).rtakeWhile good,
    ?_, fun b hb => List.mem_takeWhile_imp hb, fun b hb => List.mem_rtakeWhile_imp hb, hmid, ?_, ?_⟩
  · rw [List.append_assoc, List.rdropWhile_append_rtakeWhile, hsplit]
  · rw [hhead]
    exact List.head_dropWhile_not good hne
  · exact Bool.eq_false_iff.mpr (List.rdropWhile_last_not good _ hmid)

theorem Cut.takeWhile (h : Cut good old mid new) : (old ++ mid ++ new).takeWhile good = old := by
  obtain ⟨a, rest, rfl⟩ := List.exists_cons_of_ne_nil h.nonempty
  rw [List.append_assoc, List.takeWhile_append_of_pos h.old_good, List.cons_append,
    List.takeWhile_cons_of_neg (by simpa using h.first_bad), List.append_nil]

variable [DecidableEq α]

theorem Cut.replay_nil (h : Cut good old mid []) : replay n good (old ++ mid) = old ++ mid := by
  rw [← List.dropLast_append_getLast h.nonempty, ← List.append_assoc]
  exact replay_of_bad_last h.last_bad

/-- One replay takes one entry from the new ones and `n` from the old ones. -/
theorem Cut.replay_concat {a : α} (h : Cut good old mid (new ++ [a]))
    (hnodup : (old ++ mid ++ (new ++ [a])).Nodup) :
    replay n good (old ++ mid ++ (new ++ [a])) = old.drop n ++ mid ++ new ∧
      Cut good (old.drop n) mid new := by
  have hcut : Cut good old mid new := { h with new_good := fun b hb => h.new_good b (by simp [hb]) }
  refine ⟨?_, { hcut with old_good := fun b hb => h.old_good b (List.mem_of_mem_drop hb) }⟩
  rw [← List.append_assoc] at hnodup ⊢
  rw [Library.replay_concat hnodup (h.new_good a (by simp)), hcut.takeWhile, List.append_assoc,
    List.drop_append, Nat.sub_eq_zero_of_le (Nat.min_le_right n old.length), List.drop_zero,
    ← List.append_assoc]
  rcases Nat.le_total n old.length with hle | hle
  · rw [min_eq_left hle]
  · rw [min_eq_right hle, List.drop_length, List.drop_eq_nil_of_le hle]

/-- After as many replays as there are new entries only old ones and the middle remain. -/
theorem Cut.iterate (h : Cut good old mid new) (hnodup : (old ++ mid ++ new).Nodup) :
    (replay n good)^[new.length] (old ++ mid ++ new) = old.drop (n * new.length) ++ mid := by
  induction new using List.reverseRecOn generalizing old with
  | nil => simp
  | append_singleton new a ih =>
    obtain ⟨hreplay, hcut⟩ := h.replay_concat (n := n) hnodup
    rw [List.length_append, List.length_singleton, Function.iterate_succ_apply, hreplay,
      ih hcut (hreplay ▸ (replay_sublist _).nodup hnodup), List.drop_drop, Nat.mul_succ, Nat.add_comm]

/-- Only failures are left at some time exactly when they lie together, and the entries before them
can leave while those after them do. -/
theorem Cut.only_bad_iff (h : Cut good old mid new) (hnodup : (old ++ mid ++ new).Nodup) :
    (∃ k, ∀ a ∈ (replay n good)^[k] (old ++ mid ++ new), good a = false) ↔
      (∀ a ∈ mid, good a = false) ∧ old.length ≤ n * new.length := by
  have hstuck : Cut good (old.drop (n * new.length)) mid [] :=
    { h with
      old_good := fun b hb => h.old_good b (List.mem_of_mem_drop hb)
      new_good := fun b hb => absurd hb List.not_mem_nil }
  constructor
  · rintro ⟨k, hk⟩
    -- what is left in the end is left at any time
    have hend : (replay n good)^[k] (old.drop (n * new.length) ++ mid) =
        old.drop (n * new.length) ++ mid := Function.iterate_fixed hstuck.replay_nil k
    rw [← h.iterate hnodup, ← Function.iterate_add_apply, Nat.add_comm,
      Function.iterate_add_apply, h.iterate hnodup] at hend
    have hleft : ∀ a ∈ old.drop (n * new.length) ++ mid, good a = false := by
      intro a ha
      rw [← hend] at ha
      exact hk a ((iterate_sublist _ _).subset ha)
    refine ⟨fun a ha => hleft a (List.mem_append_right _ ha), ?_⟩
    by_contra hlong
    have hne : old.drop (n * new.length) ≠ [] := fun hnil =>
      hlong (List.drop_eq_nil_iff.mp hnil)
    have hmem := List.head_mem hne
    have hgood := h.old_good _ (List.mem_of_mem_drop hmem)
    rw [hleft _ (List.mem_append_left _ hmem)] at hgood
    cases hgood
  · rintro ⟨hmid, hlen⟩
    refine ⟨new.length, fun a ha => ?_⟩
    rw [h.iterate hnodup, List.drop_eq_nil_of_le hlen, List.nil_append] at ha
    exact hmid a ha

end Blocked

/-! ## Entries in order -/

section Ordered

variable {α : Type*} [LinearOrder α] {n : ℕ} {good : α → Bool} {old mid new l : List α} {a : α}

def newer (good : α → Bool) (l : List α) : List α :=
  l.filter (fun a => ∀ b ∈ l, good b = false → b < a)

def older (good : α → Bool) (l : List α) : List α :=
  l.filter (fun a => ∀ b ∈ l, good b = false → a < b)

theorem newer_of_good (h : ∀ a ∈ l, good a = true) : newer good l = l := by
  refine List.filter_eq_self.mpr (fun a _ => decide_eq_true (fun b hb hbad => ?_))
  rw [h b hb] at hbad
  cases hbad

theorem older_of_good (h : ∀ a ∈ l, good a = true) : older good l = l := by
  refine List.filter_eq_self.mpr (fun a _ => decide_eq_true (fun b hb hbad => ?_))
  rw [h b hb] at hbad
  cases hbad

theorem Cut.newer_eq (h : Cut good old mid new) (hsorted : (old ++ mid ++ new).Pairwise (· < ·)) :
    newer good (old ++ mid ++ new) = new := by
  have hlast : mid.getLast h.nonempty ∈ old ++ mid ++ new := by simp
  rw [List.pairwise_append, List.pairwise_append] at hsorted
  obtain ⟨⟨-, hmid, hold⟩, -, hnew⟩ := hsorted
  rw [newer, List.filter_append, List.filter_eq_nil_iff.mpr, List.filter_eq_self.mpr, List.nil_append]
  · refine fun a ha => decide_eq_true (fun b hb hbad => ?_)
    rcases List.mem_append.mp hb with hb | hb
    · exact hnew b hb a ha
    · rw [h.new_good b hb] at hbad
      cases hbad
  · intro a ha htrue
    have hlt := of_decide_eq_true htrue _ hlast h.last_bad
    rcases List.mem_append.mp ha with ha | ha
    · exact lt_asymm hlt (hold a ha _ (List.getLast_mem h.nonempty))
    · rw [← List.dropLast_append_getLast h.nonempty, List.pairwise_append] at hmid
      rw [← List.dropLast_append_getLast h.nonempty, List.mem_append, List.mem_singleton] at ha
      rcases ha with ha | rfl
      · exact lt_asymm hlt (hmid.2.2 a ha _ (List.mem_singleton_self _))
      · exact lt_irrefl _ hlt

theorem Cut.older_eq (h : Cut good old mid new) (hsorted : (old ++ mid ++ new).Pairwise (· < ·)) :
    older good (old ++ mid ++ new) = old := by
  have hfirst : mid.head h.nonempty ∈ old ++ mid ++ new := by simp
  rw [List.append_assoc, List.pairwise_append, List.pairwise_append] at hsorted
  obtain ⟨-, ⟨hmid, -, hnew⟩, hold⟩ := hsorted
  rw [older, List.append_assoc, List.filter_append, List.filter_eq_self.mpr,
    List.filter_eq_nil_iff.mpr, List.append_nil]
  · intro a ha htrue
    have hlt := of_decide_eq_true htrue _ (by rwa [← List.append_assoc]) h.first_bad
    rcases List.mem_append.mp ha with ha | ha
    · rw [← List.cons_head_tail h.nonempty, List.pairwise_cons] at hmid
      rw [← List.cons_head_tail h.nonempty, List.mem_cons] at ha
      rcases ha with rfl | ha
      · exact lt_irrefl _ hlt
      · exact lt_asymm hlt (hmid.1 a ha)
    · exact lt_asymm hlt (hnew _ (List.head_mem h.nonempty) a ha)
  · refine fun a ha => decide_eq_true (fun b hb hbad => ?_)
    rcases List.mem_append.mp hb with hb | hb
    · rw [h.old_good b hb] at hbad
      cases hbad
    · exact hold a ha b hb

/-- Replays leave only failures at last exactly when every other entry is before or behind all of
them, and those before them are at most `n` times those behind them. -/
theorem only_bad_iff (hsorted : l.Pairwise (· < ·)) (hn : 0 < n) :
    (∃ k, ∀ a ∈ (replay n good)^[k] l, good a = false) ↔
      (∀ a ∈ l, good a = false ∨ a ∈ newer good l ∨ a ∈ older good l) ∧
        (older good l).length ≤ n * (newer good l).length := by
  have hnodup : l.Nodup := hsorted.imp ne_of_lt
  by_cases hall : ∀ a ∈ l, good a = true
  · refine iff_of_true ⟨l.length, fun a ha => ?_⟩ ⟨fun a ha => .inr (.inl ?_), ?_⟩
    · rw [iterate_eq_nil hnodup hall le_rfl] at ha
      exact absurd ha List.not_mem_nil
    · rwa [newer_of_good hall]
    · rw [newer_of_good hall, older_of_good hall]
      exact Nat.le_mul_of_pos_left _ hn
  · obtain ⟨a, ha, hbad⟩ : ∃ a ∈ l, good a = false := by simpa using hall
    obtain ⟨old, mid, new, rfl, hcut⟩ := exists_cut ha hbad
    rw [hcut.only_bad_iff hnodup, hcut.newer_eq hsorted, hcut.older_eq hsorted]
    refine and_congr_left' ⟨fun hmid b hb => ?_, fun hrest b hb => ?_⟩
    · rcases List.mem_append.mp hb with hb | hb
      · exact (List.mem_append.mp hb).elim (fun hb => .inr (.inr hb)) (fun hb => .inl (hmid b hb))
      · exact .inr (.inl hb)
    · rw [List.append_assoc, List.nodup_append, List.nodup_append] at hnodup
      apply (hrest b (by simp [hb])).resolve_right
      intro hout
      rcases hout with hout | hout
      · exact hnodup.2.1.2.2 b hb b hout rfl
      · exact hnodup.2.2 b hout b (List.mem_append_left _ hb) rfl

theorem newer_leaves (hsorted : l.Pairwise (· < ·)) :
    ∃ k, ∀ a ∈ newer good l, a ∉ (replay n good)^[k] l := by
  have hnodup : l.Nodup := hsorted.imp ne_of_lt
  by_cases hall : ∀ a ∈ l, good a = true
  · refine ⟨l.length, fun a _ => ?_⟩
    rw [iterate_eq_nil hnodup hall le_rfl]
    exact List.not_mem_nil
  · obtain ⟨a, ha, hbad⟩ : ∃ a ∈ l, good a = false := by simpa using hall
    obtain ⟨old, mid, new, rfl, hcut⟩ := exists_cut ha hbad
    refine ⟨new.length, fun b hb hmem => ?_⟩
    rw [hcut.newer_eq hsorted] at hb
    rw [hcut.iterate hnodup] at hmem
    rw [List.nodup_append] at hnodup
    have hbefore : b ∈ old ++ mid := (List.mem_append.mp hmem).elim
      (fun h => List.mem_append_left _ (List.mem_of_mem_drop h)) (fun h => List.mem_append_right _ h)
    exact hnodup.2.2 b hbefore b hb rfl

end Ordered

end CardScope.Library
