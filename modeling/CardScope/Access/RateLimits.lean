import CardScope.Agent.Rates

/-! # What the rate limiter lets in

The counter of a key is dropped only after its window has passed, whoever else causes it. So a key
gets at most its limit in each window, and at most twice its limit in a minute.
-/

namespace CardScope.Access
open Library Hub Agent

def countersAfter (arrivals : List Arrival) : Rates := arrivals.foldl counted Table.empty

def admitted : Rates → List Arrival → List Arrival
  | _, [] => []
  | rates, a :: rest =>
    if admits rates a then a :: admitted (counted rates a) rest
    else admitted (counted rates a) rest

/-- The request opens a window: it is counted, and its key has no counter or one that has passed. -/
def Opens (rates : Rates) (a : Arrival) : Prop :=
  ¬ Crowded rates a.now ∧ ¬ Open (windowOf (trimRates rates a.now) a.key) a.now

section Counter

variable {rates : Rates} {a : Arrival} {key : String} {limit : ℕ} {now : ℤ}
  {arrivals rest : List Arrival}

theorem open_of_carried {w w' : Option Window} (h : Carried now w w') : Open w' now ↔ Open w now := by
  rcases h with rfl | ⟨rfl, v, rfl, hv⟩
  · exact Iff.rfl
  · apply iff_of_false
    · rintro ⟨_, ⟨⟩, _⟩
    · rintro ⟨_, ⟨⟩, hle⟩
      exact absurd hle (not_le.mpr hv)

theorem opens_iff : Opens rates a ↔ ¬ Crowded rates a.now ∧ ¬ Open (windowOf rates a.key) a.now := by
  rw [Opens, open_of_carried (carried_trimRates rates a.now a.key)]

theorem admits_of_crowded (h : Crowded rates a.now) : admits rates a = false := by
  rw [admits, allowed_of_crowded h]

theorem admits_iff (hlimit : 1 ≤ a.limit) (h : ¬ Crowded rates a.now) : admits rates a = true ↔
    (Window.next 60000 (windowOf rates a.key) a.now).count ≤ a.limit := by
  rw [admits, (allowed_of_not_crowded h).2 hlimit, decide_eq_true_eq]

theorem carried_counted (h : a.key = key → Crowded rates a.now) :
    Carried a.now (windowOf rates key) (windowOf (counted rates a) key) := by
  by_cases hkey : a.key = key
  · rw [counted, allowed_of_crowded (h hkey)]
    exact carried_trimRates rates a.now key
  · exact carried_other hkey

theorem counts_or_not (rates : Rates) (a : Arrival) (key : String) :
    a.key = key ∧ ¬ Crowded rates a.now ∨ (a.key = key → Crowded rates a.now) := by
  by_cases hcrowded : Crowded rates a.now
  · exact .inr (fun _ => hcrowded)
  · by_cases hkey : a.key = key
    · exact .inl ⟨hkey, hcrowded⟩
    · exact .inr (fun h => absurd h hkey)

/-- A counter stays until its window has passed, and does not lose what it counted. -/
theorem kept_counted {v : Window} (hv : v ∈ windowOf rates key) :
    (∃ v' ∈ windowOf (counted rates a) key, v'.reset = v.reset ∧ v.count ≤ v'.count) ∨
      v.reset < a.now := by
  rcases counts_or_not rates a key with ⟨rfl, hroom⟩ | hkeep
  · rw [windowOf_own hroom, hv, Window.next]
    by_cases hpassed : a.now > v.reset
    · exact .inr hpassed
    · rw [if_neg hpassed]
      exact .inl ⟨_, rfl, rfl, Nat.le_succ v.count⟩
  · rcases carried_counted hkeep with heq | ⟨-, w, hw, hpassed⟩
    · exact .inl ⟨v, heq.trans hv, rfl, le_rfl⟩
    · rw [hv] at hw
      cases hw
      exact .inr hpassed

theorem used_counted (hown : a.key = key → a.limit = limit) (hlimit : 1 ≤ limit)
    (hquiet : a.key = key → ¬ Opens rates a) {n : ℕ} (hn : Used limit n (windowOf rates key)) :
    Used limit (n + if a.key = key ∧ admits rates a = true then 1 else 0)
      (windowOf (counted rates a) key) := by
  rcases counts_or_not rates a key with ⟨rfl, hroom⟩ | hkeep
  · have hopen : Open (windowOf rates a.key) a.now := by
      by_contra hshut
      exact hquiet rfl (opens_iff.mpr ⟨hroom, hshut⟩)
    have hnext : Used limit
        (n + if (Window.next 60000 (windowOf rates a.key) a.now).count ≤ limit then 1 else 0)
        (some (Window.next 60000 (windowOf rates a.key) a.now)) := hn.next hopen
    rw [windowOf_own hroom]
    simpa [admits_iff (hown rfl ▸ hlimit) hroom, hown rfl] using hnext
  · have hrefused : ¬ (a.key = key ∧ admits rates a = true) := by
      rintro ⟨hkey, hadmit⟩
      rw [admits_of_crowded (hkeep hkey)] at hadmit
      cases hadmit
    rw [if_neg hrefused, add_zero]
    exact hn.carried (carried_counted hkeep)

theorem used_opened (hlimit : 1 ≤ limit) (hopens : Opens rates a) :
    windowOf (counted rates a) a.key = some ⟨1, a.now + 60000⟩ ∧
      Used limit 1 (windowOf (counted rates a) a.key) := by
  obtain ⟨hroom, hshut⟩ := opens_iff.mp hopens
  rw [windowOf_own hroom, next_of_not_open 60000 hshut]
  refine ⟨rfl, hlimit, ?_⟩
  rintro _ ⟨⟩
  exact le_rfl

/-! ## One window -/

theorem length_admitted_cons (p : Arrival → Bool) :
    ((admitted rates (a :: rest)).filter p).length =
      (if admits rates a = true ∧ p a = true then 1 else 0) +
        ((admitted (counted rates a) rest).filter p).length := by
  rw [admitted]
  by_cases ha : admits rates a = true
  · by_cases hp : p a = true
    · rw [if_pos ha, if_pos ⟨ha, hp⟩, List.filter_cons_of_pos hp, List.length_cons, add_comm]
    · rw [if_pos ha, if_neg (fun h => hp h.2), List.filter_cons_of_neg hp, zero_add]
  · rw [if_neg ha, if_neg (fun h => ha h.1), zero_add]

theorem length_admitted_le {p : Arrival → Bool} (hp : ∀ b, p b = true → b.key = key) :
    ((admitted rates (a :: rest)).filter p).length ≤
      (if a.key = key ∧ admits rates a = true then 1 else 0) +
        ((admitted (counted rates a) rest).filter p).length := by
  rw [length_admitted_cons]
  by_cases h : admits rates a = true ∧ p a = true
  · rw [if_pos h, if_pos ⟨hp a h.2, h.1⟩]
  · rw [if_neg h, zero_add]
    exact Nat.le_add_left _ _

theorem length_admitted_le_succ (p : Arrival → Bool) :
    ((admitted rates (a :: rest)).filter p).length ≤
      1 + ((admitted (counted rates a) rest).filter p).length := by
  rw [length_admitted_cons]
  split_ifs <;> omega

/-- Requests that open no window for the key add to what its window has let in. -/
theorem length_admitted_window (hown : ∀ b ∈ arrivals, b.key = key → b.limit = limit)
    (hlimit : 1 ≤ limit) (hquiet : Along counted (fun rates b => b.key = key → ¬ Opens rates b)
      rates arrivals) {n : ℕ} (hn : Used limit n (windowOf rates key)) :
    n + ((admitted rates arrivals).filter (fun b => b.key = key)).length ≤ limit := by
  induction arrivals generalizing rates n with
  | nil => exact hn.1
  | cons a rest ih =>
    have hnext := used_counted (hown a List.mem_cons_self) hlimit hquiet.1 hn
    have hstep := ih (fun b hb => hown b (List.mem_cons_of_mem a hb)) hquiet.2 hnext
    have hcount : ((admitted rates (a :: rest)).filter (fun b => b.key = key)).length ≤ _ :=
      length_admitted_le (fun b hb => of_decide_eq_true hb)
    omega

/-! ## One minute -/

def inMinute (key : String) (t : ℤ) (a : Arrival) : Bool :=
  a.key = key ∧ t ≤ a.now ∧ a.now ≤ t + 60000

theorem mem_of_mem_admitted {b : Arrival} (h : b ∈ admitted rates arrivals) : b ∈ arrivals := by
  induction arrivals generalizing rates with
  | nil => exact h
  | cons a rest ih =>
    rw [admitted] at h
    split_ifs at h
    · rcases List.mem_cons.mp h with rfl | h
      · exact List.mem_cons_self
      · exact List.mem_cons_of_mem a (ih h)
    · exact List.mem_cons_of_mem a (ih h)

variable {t : ℤ}

theorem admitted_after (h : ∀ b ∈ arrivals, t + 60000 < b.now) :
    (admitted rates arrivals).filter (inMinute key t) = [] := by
  apply List.filter_eq_nil_iff.mpr
  intro b hb
  have hlate := h b (mem_of_mem_admitted hb)
  simp only [inMinute, decide_eq_true_eq]
  omega

theorem inMinute_key (b : Arrival) (h : inMinute key t b = true) : b.key = key :=
  (of_decide_eq_true h).1

/-- The open window lasts until the minute is over, so no other one lets anything in. -/
theorem length_admitted_last (hown : ∀ b ∈ arrivals, b.key = key → b.limit = limit)
    (hlimit : 1 ≤ limit) (hclock : arrivals.Pairwise (fun b c => b.now ≤ c.now))
    (hlasts : (∃ v ∈ windowOf rates key, t + 60000 ≤ v.reset) ∨ ∀ b ∈ arrivals, t + 60000 < b.now)
    {n : ℕ} (hn : Used limit n (windowOf rates key)) :
    n + ((admitted rates arrivals).filter (inMinute key t)).length ≤ limit := by
  induction arrivals generalizing rates n with
  | nil => exact hn.1
  | cons a rest ih =>
    by_cases hover : ∀ b ∈ a :: rest, t + 60000 < b.now
    · rw [admitted_after hover]
      exact hn.1
    · obtain ⟨v, hv, hreset⟩ := hlasts.resolve_right hover
      rw [List.pairwise_cons] at hclock
      have hlate : v.reset < a.now → ∀ b ∈ a :: rest, t + 60000 < b.now := by
        intro hpassed
        rw [List.forall_mem_cons]
        refine ⟨by omega, ?_⟩
        intro b hb
        have hle := hclock.1 b hb
        omega
      have hquiet : a.key = key → ¬ Opens rates a := by
        rintro rfl hopens
        apply (opens_iff.mp hopens).2
        exact ⟨v, hv, by_contra (fun hpassed => hover (hlate (not_le.mp hpassed)))⟩
      have hnext := used_counted (hown a List.mem_cons_self) hlimit hquiet hn
      have hlasts' : (∃ v ∈ windowOf (counted rates a) key, t + 60000 ≤ v.reset) ∨
          ∀ b ∈ rest, t + 60000 < b.now := by
        rcases kept_counted hv with ⟨v', hv', hsame, -⟩ | hpassed
        · exact .inl ⟨v', hv', hsame ▸ hreset⟩
        · exact .inr (fun b hb => hlate hpassed b (List.mem_cons_of_mem a hb))
      have hstep := ih (fun b hb => hown b (List.mem_cons_of_mem a hb)) hclock.2 hlasts' hnext
      have hcount : ((admitted rates (a :: rest)).filter (inMinute key t)).length ≤ _ :=
        length_admitted_le inMinute_key
      omega

/-- A minute meets two windows at most. -/
theorem length_admitted_minute (hown : ∀ b ∈ arrivals, b.key = key → b.limit = limit)
    (hlimit : 1 ≤ limit) (hclock : arrivals.Pairwise (fun b c => b.now ≤ c.now))
    {n : ℕ} (hn : Used limit n (windowOf rates key)) (hbegun : n = 0 ∨ ∀ b ∈ arrivals, t ≤ b.now) :
    n + ((admitted rates arrivals).filter (inMinute key t)).length ≤ 2 * limit := by
  induction arrivals generalizing rates n with
  | nil =>
    have hle := hn.1
    change n + 0 ≤ 2 * limit
    omega
  | cons a rest ih =>
    have hrest := fun b hb => hown b (List.mem_cons_of_mem a hb)
    rw [List.pairwise_cons] at hclock
    by_cases hbefore : a.now < t
    · -- nothing of the minute has been let in so far
      obtain rfl : n = 0 := hbegun.resolve_right
        (fun h => absurd (h a List.mem_cons_self) (not_le.mpr hbefore))
      have hnone : ¬ (admits rates a = true ∧ inMinute key t a = true) := by
        simp [inMinute, not_le.mpr hbefore]
      rw [length_admitted_cons, if_neg hnone, zero_add]
      exact ih hrest hclock.2 (used_zero limit (windowOf (counted rates a) key)) (.inl rfl)
    · have hlater : ∀ b ∈ rest, t ≤ b.now := fun b hb => (not_lt.mp hbefore).trans (hclock.1 b hb)
      by_cases hopens : a.key = key ∧ Opens rates a
      · obtain ⟨rfl, hopens⟩ := hopens
        obtain ⟨hwindow, hplace⟩ := used_opened hlimit hopens
        have hlasts : ∃ v ∈ windowOf (counted rates a) a.key, t + 60000 ≤ v.reset := by
          rw [hwindow]
          refine ⟨_, rfl, ?_⟩
          dsimp only
          omega
        have hstep := length_admitted_last hrest hlimit hclock.2 (.inl hlasts) hplace
        have hfirst : ((admitted rates (a :: rest)).filter (inMinute a.key t)).length ≤ limit :=
          (length_admitted_le_succ _).trans hstep
        have hle := hn.1
        omega
      · have hquiet : a.key = key → ¬ Opens rates a := fun hkey ho => hopens ⟨hkey, ho⟩
        have hnext := used_counted (hown a List.mem_cons_self) hlimit hquiet hn
        have hstep := ih hrest hclock.2 hnext (.inr hlater)
        have hcount : ((admitted rates (a :: rest)).filter (inMinute key t)).length ≤ _ :=
          length_admitted_le inMinute_key
        omega

/-! ## The table -/

theorem length_trimRates (rates : Rates) (now : ℤ) :
    (trimRates rates now).rows.length ≤ rates.rows.length := by
  unfold trimRates
  split_ifs
  · exact List.length_filter_le _ _
  · exact le_rfl

theorem length_put_rates (rates : Rates) (r : Rate) :
    (rates.put r).rows.length ≤ rates.rows.length + 1 := by
  rw [Table.put, Table.rows_insert, List.length_cons]
  exact Nat.succ_le_succ (List.length_filter_le _ _)

theorem length_counted (h : rates.rows.length ≤ 4097) :
    (counted rates a).rows.length ≤ 4097 := by
  by_cases hcrowded : Crowded rates a.now
  · rw [counted, allowed_of_crowded hcrowded]
    exact (length_trimRates rates a.now).trans h
  · rw [counted, (allowed_of_not_crowded hcrowded).1]
    apply (length_put_rates _ _).trans
    unfold Crowded at hcrowded
    omega

end Counter

/-! ## Runs -/

section Runs

variable {arrivals early mid late : List Arrival} {a : Arrival}

theorem length_countersAfter (arrivals : List Arrival) : (countersAfter arrivals).rows.length ≤ 4097 :=
  foldl_invariant counted (fun _ rates => rates.rows.length ≤ 4097)
    (fun _ _ _ h => length_counted h) arrivals Table.empty (Nat.zero_le _)

theorem countersAfter_concat (early : List Arrival) (a : Arrival) :
    countersAfter (early ++ [a]) = counted (countersAfter early) a := by
  rw [countersAfter, List.foldl_append]
  rfl

/-- A window lets in at most the limit, a minute at most twice as much, no counter loses what it
counted, and there are never more than 4097 counters. -/
theorem requests_limited (limit : String → ℕ) (hlimit : ∀ key, 1 ≤ limit key)
    (arrivals : List Arrival) (hown : ∀ a ∈ arrivals, a.limit = limit a.key)
    (hclock : arrivals.Pairwise (fun a b => a.now ≤ b.now)) :
    (∀ early a mid late, arrivals = early ++ a :: (mid ++ late) → Opens (countersAfter early) a →
      Along counted (fun rates b => b.key = a.key → ¬ Opens rates b) (countersAfter (early ++ [a])) mid →
        ((admitted (countersAfter early) (a :: mid)).filter (fun b => b.key = a.key)).length ≤
          limit a.key) ∧
    (∀ key t, ((admitted Table.empty arrivals).filter
      (fun b => b.key = key ∧ t ≤ b.now ∧ b.now ≤ t + 60000)).length ≤ 2 * limit key) ∧
    (∀ early a late, arrivals = early ++ a :: late → ∀ r ∈ countersAfter early,
      (∃ r' ∈ countersAfter (early ++ [a]), r'.key = r.key ∧ r'.reset = r.reset ∧ r.count ≤ r'.count) ∨
        r.reset < a.now) ∧
    ∀ early, early <+: arrivals → (countersAfter early).rows.length ≤ 4097 := by
  refine ⟨?_, ?_, ?_, fun early _ => length_countersAfter early⟩
  · rintro early a mid late rfl hopens hquiet
    rw [countersAfter_concat] at hquiet
    have hmid : ∀ b ∈ mid, b.key = a.key → b.limit = limit a.key := by
      intro b hb hkey
      rw [hown b (by simp [hb]), hkey]
    have hlater := length_admitted_window hmid (hlimit a.key) hquiet
      (used_opened (hlimit a.key) hopens).2
    exact (length_admitted_le_succ _).trans hlater
  · intro key t
    have hminute := length_admitted_minute (fun b hb hkey => (hown b hb).trans (congrArg limit hkey))
      (hlimit key) hclock (used_zero (limit key) (windowOf Table.empty key)) (t := t) (.inl rfl)
    rw [zero_add] at hminute
    exact hminute
  · rintro early a late rfl r hr
    have hv : (⟨r.count, r.reset⟩ : Window) ∈ windowOf (countersAfter early) r.key := by
      rw [windowOf, Table.find?_eq_some.mpr ⟨hr, rfl⟩]
      rfl
    rw [countersAfter_concat]
    rcases kept_counted hv with ⟨v', hv', hreset, hcount⟩ | hpassed
    · obtain ⟨r', hr', rfl⟩ := Option.map_eq_some_iff.mp hv'
      obtain ⟨hmem, hkey⟩ := Table.find?_eq_some.mp hr'
      exact .inl ⟨r', hmem, hkey, hreset, hcount⟩
    · exact .inr hpassed

end Runs

/-- Eleven logins from one address within a minute, and one after it. -/
def loginCalls : List Arrival :=
  List.replicate 11 ⟨1700000000000, "login/::1", 10⟩ ++ [⟨1700000060001, "login/::1", 10⟩]

theorem requests_limited_login : ((admitted Table.empty loginCalls).filter
    (fun b => b.key = "login/::1" ∧ 1700000000000 ≤ b.now ∧
      b.now ≤ 1700000000000 + 60000)).length ≤ 2 * 10 :=
  (requests_limited (fun _ => 10) (fun _ => by decide) loginCalls (by decide) (by decide)).2.1
    "login/::1" 1700000000000

end CardScope.Access
