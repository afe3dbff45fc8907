import CardScope.Collect.Collector

/-! # Mounts that are asked

A later mount hides an earlier one on the same path, while an alias of a device is left out behind
an earlier one. The two rules meet in one pass over the list of partitions.
-/

namespace CardScope.Collect

/-- A mount of a device of its own, which is not that of a package. -/
def Partition.Regular (p : Partition) : Prop :=
  p.fstype ≠ "overlay" ∧ p.device ≠ "none" ∧ p.mountpoint.startsWith "/snap/" = false

instance (p : Partition) : Decidable p.Regular := inferInstanceAs (Decidable (_ ∧ _ ∧ _))

def Visible (p : Partition) (later : List Partition) : Prop :=
  ∀ q ∈ later, q.mountpoint ≠ p.mountpoint

instance (p : Partition) (later : List Partition) : Decidable (Visible p later) :=
  inferInstanceAs (Decidable (∀ q ∈ later, q.mountpoint ≠ p.mountpoint))

/-- The regular entries that are the last ones of their mount points, in order. -/
def eligible : List Partition → List Partition
  | [] => []
  | p :: rest => if Visible p rest ∧ p.Regular then p :: eligible rest else eligible rest

variable {p : Partition} {parts rest : List Partition} {devices : List String}

theorem mem_eligible : p ∈ eligible parts ↔
    ∃ earlier later, parts = earlier ++ p :: later ∧ Visible p later ∧ p.Regular := by
  induction parts with
  | nil => simp [eligible]
  | cons q rest ih =>
    rw [eligible]
    constructor
    · intro h
      by_cases hq : Visible q rest ∧ q.Regular
      · rw [if_pos hq, List.mem_cons, ih] at h
        rcases h with rfl | ⟨earlier, later, rfl, h⟩
        · exact ⟨[], rest, rfl, hq⟩
        · exact ⟨q :: earlier, later, rfl, h⟩
      · rw [if_neg hq, ih] at h
        obtain ⟨earlier, later, rfl, h⟩ := h
        exact ⟨q :: earlier, later, rfl, h⟩
    · rintro ⟨earlier, later, heq, h⟩
      cases earlier with
      | nil =>
        rw [List.nil_append, List.cons.injEq] at heq
        rw [heq.1, heq.2, if_pos h]
        exact List.mem_cons_self
      | cons q' earlier =>
        rw [List.cons_append, List.cons.injEq] at heq
        have hrest := ih.mpr ⟨earlier, later, heq.2, h⟩
        split_ifs
        · exact List.mem_cons_of_mem q hrest
        · exact hrest

theorem uniqueMounts_cons : uniqueMounts devices (p :: rest) =
    if (Visible p rest ∧ p.Regular) ∧ p.device ∉ devices then
      p :: uniqueMounts (p.device :: devices) rest
    else uniqueMounts devices rest := by
  have hskip : (rest.any (fun q => q.mountpoint == p.mountpoint) || p.device ∈ devices ||
      p.fstype == "overlay" || p.device == "none" || p.mountpoint.startsWith "/snap/") = true ↔
        ¬ ((Visible p rest ∧ p.Regular) ∧ p.device ∉ devices) := by
    simp only [Bool.or_eq_true, List.any_eq_true, beq_iff_eq, decide_eq_true_eq, Visible,
      Partition.Regular]
    grind
  rw [uniqueMounts]
  by_cases h : (Visible p rest ∧ p.Regular) ∧ p.device ∉ devices
  · rw [if_pos h, if_neg (fun hs => hskip.mp hs h)]
  · rw [if_neg h, if_pos (hskip.mpr h)]

theorem uniqueMounts_sublist (devices : List String) (parts : List Partition) :
    (uniqueMounts devices parts).Sublist (eligible parts) := by
  induction parts generalizing devices with
  | nil => exact List.Sublist.slnil
  | cons p rest ih =>
    rw [uniqueMounts_cons, eligible]
    by_cases h : Visible p rest ∧ p.Regular
    · rw [if_pos h]
      split_ifs
      · exact (ih _).cons_cons p
      · exact (ih _).cons p
    · rw [if_neg h, if_neg (fun hc => h hc.1)]
      exact ih _

theorem eligible_sublist (parts : List Partition) : (eligible parts).Sublist parts := by
  induction parts with
  | nil => exact List.Sublist.slnil
  | cons p rest ih =>
    rw [eligible]
    split_ifs
    · exact ih.cons_cons p
    · exact ih.cons p

theorem nodup_eligible (parts : List Partition) :
    ((eligible parts).map Partition.mountpoint).Nodup := by
  induction parts with
  | nil => exact List.nodup_nil
  | cons p rest ih =>
    rw [eligible]
    split_ifs with h
    · rw [List.map_cons, List.nodup_cons]
      refine ⟨?_, ih⟩
      intro hmem
      obtain ⟨q, hq, hmount⟩ := List.mem_map.mp hmem
      exact h.1 q ((eligible_sublist rest).subset hq) hmount
    · exact ih

/-- Of each device that was not met before the loop keeps the first eligible entry. -/
theorem find?_uniqueMounts (devices : List String) (parts : List Partition) (device : String) :
    (uniqueMounts devices parts).find? (fun p => p.device = device) =
      if device ∈ devices then none else (eligible parts).find? (fun p => p.device = device) := by
  induction parts generalizing devices with
  | nil => simp [uniqueMounts, eligible]
  | cons p rest ih =>
    rw [uniqueMounts_cons, eligible]
    by_cases h : Visible p rest ∧ p.Regular
    · by_cases hmet : p.device ∈ devices
      · rw [if_neg (fun hc => hc.2 hmet), if_pos h, ih, List.find?_cons]
        by_cases hdevice : p.device = device
        · rw [if_pos (hdevice ▸ hmet), if_pos (hdevice ▸ hmet)]
        · simp [hdevice]
      · rw [if_pos ⟨h, hmet⟩, if_pos h, List.find?_cons, List.find?_cons, ih]
        by_cases hdevice : p.device = device
        · simp [hdevice, hdevice ▸ hmet]
        · simp [hdevice, Ne.symm hdevice]
    · rw [if_neg (fun hc => h hc.1), if_neg h, ih]

theorem nodup_uniqueMounts (devices : List String) (parts : List Partition) :
    ((uniqueMounts devices parts).map Partition.device).Nodup := by
  induction parts generalizing devices with
  | nil => exact List.nodup_nil
  | cons p rest ih =>
    rw [uniqueMounts_cons]
    split_ifs
    · rw [List.map_cons, List.nodup_cons]
      refine ⟨?_, ih _⟩
      intro hmem
      obtain ⟨q, hq, hdevice⟩ := List.mem_map.mp hmem
      have hfound := find?_uniqueMounts (p.device :: devices) rest p.device
      rw [if_pos List.mem_cons_self, List.find?_eq_none] at hfound
      exact hfound q hq (decide_eq_true hdevice)
    · exact ih _

/-- Nothing is left out of a list whose entries do not touch each other. -/
theorem uniqueMounts_eq_self (hregular : ∀ p ∈ parts, p.Regular)
    (hmounts : (parts.map Partition.mountpoint).Nodup)
    (hdevices : (parts.map Partition.device).Nodup)
    (hnew : ∀ p ∈ parts, p.device ∉ devices) : uniqueMounts devices parts = parts := by
  induction parts generalizing devices with
  | nil => rfl
  | cons p rest ih =>
    rw [List.map_cons, List.nodup_cons] at hmounts hdevices
    rw [List.forall_mem_cons] at hregular hnew
    have hvisible : Visible p rest := by
      intro q hq hmount
      exact hmounts.1 (List.mem_map.mpr ⟨q, hq, hmount⟩)
    have hlater : ∀ q ∈ rest, q.device ∉ p.device :: devices := by
      intro q hq
      rw [List.mem_cons, not_or]
      exact ⟨fun hdevice => hdevices.1 (List.mem_map.mpr ⟨q, hq, hdevice⟩), hnew.2 q hq⟩
    rw [uniqueMounts_cons, if_pos ⟨⟨hvisible, hregular.1⟩, hnew.1⟩,
      ih hregular.2 hmounts.2 hdevices.2 hlater]

/-- The mounts that are asked: the first eligible entry of every device, in the order of the list,
and nothing else. -/
theorem uniqueMounts_spec (parts : List Partition) :
    (uniqueMounts [] parts).Sublist parts ∧
      ((uniqueMounts [] parts).map Partition.mountpoint).Nodup ∧
      ((uniqueMounts [] parts).map Partition.device).Nodup ∧
      (∀ device, (uniqueMounts [] parts).find? (fun p => p.device = device) =
        (eligible parts).find? (fun p => p.device = device)) ∧
      uniqueMounts [] (uniqueMounts [] parts) = uniqueMounts [] parts := by
  have hsub := uniqueMounts_sublist [] parts
  have hmounts : ((uniqueMounts [] parts).map Partition.mountpoint).Nodup :=
    (nodup_eligible parts).sublist (hsub.map Partition.mountpoint)
  have hdevices := nodup_uniqueMounts [] parts
  have hregular : ∀ p ∈ uniqueMounts [] parts, p.Regular := by
    intro p hp
    obtain ⟨_, _, _, _, h⟩ := mem_eligible.mp (hsub.subset hp)
    exact h
  refine ⟨hsub.trans (eligible_sublist parts), hmounts, hdevices, fun device => ?_, ?_⟩
  · rw [find?_uniqueMounts, if_neg List.not_mem_nil]
  · apply uniqueMounts_eq_self hregular hmounts hdevices
    intro p _
    exact List.not_mem_nil

/-- A stacked mount, an alias and a package. -/
example : (uniqueMounts [] [⟨"/dev/sdb1", "/mnt/data", "ext4"⟩,
    ⟨"/dev/sdc1", "/mnt/data", "ext4"⟩, ⟨"/dev/sdc1", "/mnt/alias", "ext4"⟩,
    ⟨"/dev/loop0", "/snap/core", "squashfs"⟩]).map Partition.device = ["/dev/sdc1"] := by
  decide +kernel

end CardScope.Collect
