import CardScope.Integration.Bounds
import CardScope.Hub.Rounding

/-! # Splitting an interval

The loop cuts an interval at minutes and at hours. A point in the middle that repeats the state of
the begin splits the interval in two, and changes no sum.
-/

namespace CardScope.Integration
open Library Model Hub Ingestion

variable {node uuid : String} {a b : Point}

theorem filter_res_sliceContributions (node uuid : String) (a : Point) (res r : ℤ) (s : Slice) :
    (sliceContributions node uuid a r s).filter (fun c => c.key.res = res) =
      if r = res then sliceContributions node uuid a r s else [] := by
  have hres : ∀ c ∈ sliceContributions node uuid a r s, c.key.res = r := by
    intro c hc
    rw [sliceContributions_eq, List.mem_cons] at hc
    rcases hc with rfl | hc
    · rfl
    · split_ifs at hc
      · obtain ⟨user, -, rfl⟩ := List.mem_map.mp hc
        rfl
      · exact absurd hc List.not_mem_nil
  split_ifs with h
  · apply List.filter_eq_self.mpr
    intro c hc
    rw [hres c hc]
    exact decide_eq_true h
  · apply List.filter_eq_nil_iff.mpr
    intro c hc
    rw [hres c hc, decide_eq_true_eq]
    exact h

theorem filter_contributions (h : Bridged a b) {res : ℤ} (hres : res = 60000 ∨ res = 3600000) :
    (contributions node uuid a b).filter (fun c => c.key.res = res) =
      (slices res a.atMs b.atMs).flatMap (fun s => cardContribution node uuid a res s ::
        if a.processValid then a.users.rows.map (userContribution node uuid a res s) else []) := by
  have hslices : ∀ r, ((slices r a.atMs b.atMs).flatMap
      (sliceContributions node uuid a r)).filter (fun c => c.key.res = res) =
        if r = res then (slices r a.atMs b.atMs).flatMap (sliceContributions node uuid a r)
        else [] := by
    intro r
    rw [List.filter_flatMap]
    simp only [filter_res_sliceContributions]
    split_ifs
    · rfl
    · simp
  rw [contributions_of_bridged h]
  simp only [List.flatMap_cons, List.flatMap_nil, List.append_nil, List.filter_append, hslices]
  rcases hres with rfl | rfl
  · rw [if_pos rfl, if_neg (by decide), List.append_nil]
    rfl
  · rw [if_neg (by decide), if_pos rfl, List.nil_append]
    rfl

theorem hasKey_contributions (h : Bridged a b) (ha : 0 ≤ a.atMs) (k : RollupKey) :
    (∃ c ∈ contributions node uuid a b, c.key = k) ↔
      k.node = node ∧ k.uuid = uuid ∧ (k.res = 60000 ∨ k.res = 3600000) ∧
        (k.user = "" ∨ a.processValid ∧ a.users.HasKey k.user) ∧
        k.res ∣ k.bucket ∧ a.atMs < k.bucket + k.res ∧ k.bucket < b.atMs := by
  constructor
  · rintro ⟨c, hc, rfl⟩
    obtain ⟨-, res, hres, s, hs, hcase⟩ := mem_contributions hc
    have hpos : 0 < res := by omega
    obtain ⟨hdvd, hlow, hhigh, -⟩ :=
      (mem_bucket_slices hpos ha s.bucket).mp (List.mem_map_of_mem hs)
    rcases hcase with rfl | ⟨hvalid, user, huser, rfl⟩
    · exact ⟨rfl, rfl, hres, .inl rfl, hdvd, hlow, hhigh⟩
    · exact ⟨rfl, rfl, hres, .inr ⟨hvalid, user, huser, rfl⟩, hdvd, hlow, hhigh⟩
  · rintro ⟨rfl, rfl, hres, huser, hdvd, hlow, hhigh⟩
    have hpos : 0 < k.res := by omega
    obtain ⟨s, hs, hbucket⟩ := List.mem_map.mp
      ((mem_bucket_slices hpos ha k.bucket).mpr ⟨hdvd, hlow, hhigh, h.1⟩)
    have hmem : ∀ c ∈ sliceContributions k.node k.uuid a k.res s,
        c ∈ contributions k.node k.uuid a b := by
      intro c hc
      rw [contributions_of_bridged h, List.mem_flatMap]
      exact ⟨k.res, by simpa using hres, List.mem_flatMap.mpr ⟨s, hs, hc⟩⟩
    rcases huser with huser | ⟨hvalid, user, hmember, huser⟩
    · refine ⟨cardContribution k.node k.uuid a k.res s, hmem _ List.mem_cons_self, ?_⟩
      rw [cardContribution, hbucket, ← huser]
    · refine ⟨userContribution k.node k.uuid a k.res s user, hmem _ ?_, ?_⟩
      · rw [sliceContributions_eq, if_pos hvalid]
        exact List.mem_cons_of_mem _ (List.mem_map_of_mem hmember)
      · rw [userContribution, hbucket, huser]

/-- The state of a point at another time. -/
def repeated (a : Point) (atMs seq : ℤ) : Point := { a with atMs := atMs, seq := seq }

theorem rate_repeated (a : Point) (atMs seq : ℤ) (user : String) :
    rate (repeated a atMs seq) user = rate a user := rfl

section Repeated

variable {m : ℤ} (seq : ℤ)

theorem bridged_repeated (h : Bridged a b) (ham : a.atMs < m) (hmb : m < b.atMs) :
    Bridged a (repeated a m seq) ∧ Bridged (repeated a m seq) b := by
  have hle := h.2
  unfold Bridged repeated
  dsimp only
  omega

theorem share_repeated (h : Bridged a b) (ha : 0 ≤ a.atMs) (ham : a.atMs < m) (hmb : m < b.atMs)
    (k : RollupKey) : share node uuid a (repeated a m seq) k + share node uuid (repeated a m seq) b k =
      share node uuid a b k := by
  obtain ⟨hleft, hright⟩ := bridged_repeated seq h ham hmb
  unfold share
  by_cases hk : (k.res = 60000 ∨ k.res = 3600000) ∧ k.node = node ∧ k.uuid = uuid
  · have hpos : 0 < k.res := by omega
    have hsplit := sum_span_split hpos ha ham.le hmb.le (fun bucket => bucket = k.bucket)
    rw [if_pos ⟨hleft, hk⟩, if_pos ⟨hright, hk⟩, if_pos ⟨h, hk⟩, ← add_div, ← hsplit]
    push_cast
    rfl
  · rw [if_neg (fun hc => hk hc.2), if_neg (fun hc => hk hc.2), if_neg (fun hc => hk hc.2), add_zero]

end Repeated

/-- An interval is cut into whole buckets that cover it, and a point in between that repeats the
state splits it into two with the same keys and sums. -/
theorem contributions_split (node uuid : String) (a b : Point) (ha : 0 ≤ a.atMs)
    (hab : a.atMs < b.atMs) (hgap : b.atMs ≤ a.atMs + 2000 * a.interval) :
    (∀ res, res = 60000 ∨ res = 3600000 → ∃ cuts, CutAt res a.atMs b.atMs cuts ∧
      (contributions node uuid a b).filter (fun c => c.key.res = res) =
        cuts.flatMap (fun s => cardContribution node uuid a res s ::
          if a.processValid then a.users.rows.map (userContribution node uuid a res s) else [])) ∧
    ∀ m seq, a.atMs < m → m < b.atMs → ∀ k : RollupKey,
      (total (fun l => l = k) (contributions node uuid a (repeated a m seq)) +
          total (fun l => l = k) (contributions node uuid (repeated a m seq) b) =
        total (fun l => l = k) (contributions node uuid a b)) ∧
      ((∃ c ∈ contributions node uuid a b, c.key = k) ↔
        (∃ c ∈ contributions node uuid a (repeated a m seq), c.key = k) ∨
          ∃ c ∈ contributions node uuid (repeated a m seq) b, c.key = k) := by
  have h : Bridged a b := ⟨hab, by omega⟩
  constructor
  · intro res hres
    exact ⟨slices res a.atMs b.atMs, cutAt_slices (by omega) ha hab.le, filter_contributions h hres⟩
  · intro m seq ham hmb k
    obtain ⟨hleft, hright⟩ := bridged_repeated seq h ham hmb
    constructor
    · rw [total_share, total_share, total_share, rate_repeated, ← add_smul,
        share_repeated seq h ha ham hmb]
    · have hm : 0 ≤ (repeated a m seq).atMs := ha.trans ham.le
      rw [hasKey_contributions h ha, hasKey_contributions hleft ha, hasKey_contributions hright hm]
      change _ ↔ (_ ∧ _ ∧ _ ∧ _ ∧ _ ∧ _ ∧ k.bucket < m) ∨ (_ ∧ _ ∧ _ ∧
        (_ ∨ a.processValid ∧ a.users.HasKey k.user) ∧ _ ∧ m < k.bucket + k.res ∧ _)
      constructor
      · rintro ⟨hn, hu, hres, huser, hdvd, hlow, hhigh⟩
        by_cases hbucket : k.bucket < m
        · exact .inl ⟨hn, hu, hres, huser, hdvd, hlow, hbucket⟩
        · exact .inr ⟨hn, hu, hres, huser, hdvd, by omega, hhigh⟩
      · rintro (⟨hn, hu, hres, huser, hdvd, hlow, hhigh⟩ | ⟨hn, hu, hres, huser, hdvd, hlow, hhigh⟩)
        · exact ⟨hn, hu, hres, huser, hdvd, hlow, by omega⟩
        · exact ⟨hn, hu, hres, huser, hdvd, by omega, hhigh⟩

def heldPoint (atMs seq : ℤ) : Point where
  atMs := atMs
  interval := 5
  seq := seq
  model := "NVIDIA Test"
  occupied := true
  processValid := true
  userValid := true
  users := Table.empty.put ("1000", "alice")
  util := some 50
  memory := some 8
  status := "ok"

/-- The interval crosses a minute, and the point in between lies on it. -/
theorem contributions_split_minute :
    total (fun l => l = ⟨"n", "GPU-test", "1000", 60000, 1700000040000⟩)
        (contributions "n" "GPU-test" (heldPoint 1700000038000 1)
          (repeated (heldPoint 1700000038000 1) 1700000040000 2)) +
      total (fun l => l = ⟨"n", "GPU-test", "1000", 60000, 1700000040000⟩)
        (contributions "n" "GPU-test" (repeated (heldPoint 1700000038000 1) 1700000040000 2)
          (heldPoint 1700000043000 3)) =
    total (fun l => l = ⟨"n", "GPU-test", "1000", 60000, 1700000040000⟩)
      (contributions "n" "GPU-test" (heldPoint 1700000038000 1) (heldPoint 1700000043000 3)) :=
  ((contributions_split "n" "GPU-test" (heldPoint 1700000038000 1) (heldPoint 1700000043000 3)
    (by decide) (by decide) (by decide)).2 1700000040000 2 (by decide) (by decide) _).1

/-- In binary64, 0.1 s and 0.2 s are not 0.3 s, which is not the length of the interval either. -/
theorem rounded_parts_differ :
    Rounded.add Binary64.round
        (total (fun l => l = ⟨"n", "GPU-test", "", 60000, 1700000040000⟩)
          (Rounded.contributions Binary64.round "n" "GPU-test" (heldPoint 1700000041000 1)
            (repeated (heldPoint 1700000041000 1) 1700000041100 2)))
        (total (fun l => l = ⟨"n", "GPU-test", "", 60000, 1700000040000⟩)
          (Rounded.contributions Binary64.round "n" "GPU-test"
            (repeated (heldPoint 1700000041000 1) 1700000041100 2) (heldPoint 1700000041300 3))) ≠
      total (fun l => l = ⟨"n", "GPU-test", "", 60000, 1700000040000⟩)
        (Rounded.contributions Binary64.round "n" "GPU-test" (heldPoint 1700000041000 1)
          (heldPoint 1700000041300 3)) ∧
    (total (fun l => l = ⟨"n", "GPU-test", "", 60000, 1700000040000⟩)
      (Rounded.contributions Binary64.round "n" "GPU-test" (heldPoint 1700000041000 1)
        (heldPoint 1700000041300 3))).occupancyValid ≠ 300 / 1000 := by
  decide +kernel

end CardScope.Integration
