import CardScope.Library.Table

/-! # Grouping by key

A list is folded into a table of groups: an element joins the group of its key, or opens it. The
group of a key depends only on the elements with this key, in their order.
-/

namespace CardScope.Library
open Table

variable {ε ρ κ : Type*} [DecidableEq κ] {key : ρ → κ}

/-- Each element joins the group of its key; the first one opens it. -/
def grouped (start : ε → ρ) (add : ε → ρ → ρ) (hadd : ∀ x g, key (add x g) = key g)
    (xs : List ε) : Table ρ key :=
  xs.foldl (fun groups x => groups.upsert (add x (start x)) (add x) (hadd x)) empty

def groupOf (start : ε → ρ) (add : ε → ρ → ρ) : List ε → Option ρ
  | [] => none
  | x :: rest => some ((x :: rest).foldl (fun g y => add y g) (start x))

variable {start : ε → ρ} {add : ε → ρ → ρ}

theorem groupOf_append (own : List ε) (x : ε) :
    groupOf start add (own ++ [x]) =
      some ((groupOf start add own).elim (add x (start x)) (add x)) := by
  cases own with
  | nil => rfl
  | cons y rest => simp [groupOf]

@[simp] theorem groupOf_eq_none {own : List ε} : groupOf start add own = none ↔ own = [] := by
  cases own <;> simp [groupOf]

variable {hadd : ∀ x g, key (add x g) = key g}

/-- The group under a key is made of the elements with this key. -/
theorem find?_grouped (xs : List ε) (k : κ) :
    (grouped start add hadd xs).find? k =
      groupOf start add (xs.filter (fun x => key (start x) = k)) := by
  induction xs using List.reverseRecOn with
  | nil => rfl
  | append_singleton xs x ih =>
    rw [grouped, List.foldl_append, ← grouped, List.foldl_cons, List.foldl_nil, find?_upsert,
      hadd, ih, List.filter_append]
    by_cases hk : key (start x) = k
    · rw [if_pos hk, List.filter_cons_of_pos (by simpa using hk), List.filter_nil, groupOf_append]
    · rw [if_neg hk, List.filter_cons_of_neg (by simpa using hk), List.filter_nil, List.append_nil]

theorem mem_grouped {xs : List ε} {g : ρ} :
    g ∈ grouped start add hadd xs ↔
      groupOf start add (xs.filter (fun x => key (start x) = key g)) = some g := by
  have hfound : (grouped start add hadd xs).find? (key g) =
      groupOf start add (xs.filter (fun x => key (start x) = key g)) := find?_grouped xs (key g)
  rw [← hfound, find?_eq_some]
  exact ⟨fun h => ⟨h, rfl⟩, And.left⟩

theorem sum_grouped {M : Type*} [AddCommGroup M] (f : ρ → M) (w : ε → M)
    (hstart : ∀ x, f (add x (start x)) = w x) (hf : ∀ x g, f (add x g) = f g + w x) (xs : List ε) :
    (grouped start add hadd xs).sum f = (xs.map w).sum := by
  induction xs using List.reverseRecOn with
  | nil => rfl
  | append_singleton xs x ih =>
    have hmerge : ∀ g, key g = key (add x (start x)) → f (add x g) = f g + f (add x (start x)) := by
      intro g _
      rw [hf, hstart]
    rw [grouped, List.foldl_append, ← grouped, List.foldl_cons, List.foldl_nil,
      sum_upsert _ _ _ _ _ hmerge, ih, hstart]
    simp

end CardScope.Library
