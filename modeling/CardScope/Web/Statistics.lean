import CardScope.Library.Runs

/-! # The page of the statistics

The page asks for the statistics of the users 200 milliseconds after the last change of its filters.
In whatever order answers come, the rows that it shows and the file that it exports are those of the
filters that are set.
-/

namespace CardScope.Web.Statistics
open Library

/-! ## The page -/

inductive Period where
  | day
  | week
  | month
  | custom
deriving DecidableEq

def Period.days : Period → ℤ
  | .day => 1
  | .week => 7
  | .month => 30
  | .custom => 0

structure Filters where
  period : Period := .week
  start : String
  stop : String
  node : String := ""
  model : String := ""
  user : String := ""
deriving DecidableEq

structure Query where
  fromMs : ℤ
  toMs : ℤ
  node : String
  model : String
  user : String
deriving DecidableEq

/-- The times of a custom period are read; any other period ends at the time of the query, which its
export repeats. -/
def query (time : String → Option ℤ) (now : ℤ) (f : Filters) : Option Query :=
  let stop := if f.period = .custom then time f.stop else some now
  let start := if f.period = .custom then time f.start
    else stop.map (fun stop => stop - f.period.days * 86400000)
  match start, stop with
  | some start, some stop =>
    if start ≥ stop then none else some ⟨start, stop, f.node, f.model, f.user⟩
  | _, _ => none

/-- The request of one run of the effect. -/
structure Request where
  run : ℕ
  query : Query
deriving DecidableEq

inductive Answer (ρ : Type*) where
  | data (result : ρ)
  | failed (message : String)

/-- The state of the page. Of the runs of the effect only the last one is active. -/
structure State (ρ : Type*) where
  filters : Filters
  query : Option Query
  result : Option ρ := none
  error : String := ""
  busy : Bool := true
  expanded : List String := []
  runs : ℕ := 0
  timer : Option Request := none
  pending : List Request := []

variable {ρ : Type*}

namespace State

/-- The effect with the clean-up of its last run: a request is prepared, unless there is no query. -/
def effect (s : State ρ) : State ρ :=
  let s := { s with
    runs := s.runs + 1
    busy := true
    error := ""
    result := none
    expanded := []
    timer := none }
  match s.query with
  | none => { s with busy := false, error := "结束时间须晚于开始时间" }
  | some q => { s with timer := some ⟨s.runs, q⟩ }

/-- Other filters make another query. The effect runs when it differs from the last one. -/
def select (time : String → Option ℤ) (s : State ρ) (f : Filters) (now : ℤ) : State ρ :=
  if f = s.filters then s
  else if Statistics.query time now f = s.query then { s with filters := f }
  else { s with filters := f, query := Statistics.query time now f }.effect

def fire (s : State ρ) : State ρ :=
  match s.timer with
  | none => s
  | some r => { s with timer := none, pending := s.pending ++ [r] }

def display (s : State ρ) : Answer ρ → State ρ
  | .data result => { s with result := some result, busy := false }
  | .failed message => { s with error := message, busy := false }

def receive (s : State ρ) (run : ℕ) (answer : Answer ρ) : State ρ :=
  if s.pending.any (fun r => r.run = run) then
    let s := { s with pending := s.pending.filter (fun r => r.run ≠ run) }
    if run = s.runs then s.display answer else s
  else s

def toggle (s : State ρ) (key : String) : State ρ :=
  { s with
    expanded := if key ∈ s.expanded then s.expanded.filter (fun k => k ≠ key)
      else s.expanded ++ [key] }

/-- The query of the file, when the button can be pressed. -/
def exported (s : State ρ) : Option Query :=
  if s.busy ∨ s.result.isNone ∨ s.query.isNone then none else s.query

end State

inductive Action (ρ : Type*) where
  | select (f : Filters) (now : ℤ)
  | fire
  | receive (run : ℕ) (answer : Answer ρ)
  | toggle (key : String)

def step (time : String → Option ℤ) (s : State ρ) : Action ρ → State ρ
  | .select f now => s.select time f now
  | .fire => s.fire
  | .receive run answer => s.receive run answer
  | .toggle key => s.toggle key

def opened (ρ : Type*) (time : String → Option ℤ) (now : ℤ) (f : Filters) : State ρ :=
  State.effect { filters := f, query := query time now f }

def run (time : String → Option ℤ) (now : ℤ) (f : Filters) (actions : List (Action ρ)) : State ρ :=
  actions.foldl (step time) (opened ρ time now f)

/-- The filters of the last change, and its time. -/
def changed (last : Filters × ℤ) : Action ρ → Filters × ℤ
  | .select f now => if f = last.1 then last else (f, now)
  | _ => last

def lastChange (f : Filters) (now : ℤ) (actions : List (Action ρ)) : Filters × ℤ :=
  actions.foldl changed (f, now)

/-! ## One action -/

variable {time : String → Option ℤ} {now : ℤ} {f : Filters} {s : State ρ}

/-- A period that ends now begins before. -/
theorem custom_of_query_eq_none (h : query time now f = none) : f.period = .custom := by
  by_contra hfixed
  cases hperiod : f.period <;> simp [query, hperiod, Period.days] at h hfixed

structure Kept (s t : State ρ) : Prop where
  runs : t.runs = s.runs
  query : t.query = s.query
  result : t.result = s.result
  error : t.error = s.error
  busy : t.busy = s.busy

theorem step_cases (time : String → Option ℤ) (s : State ρ) (a : Action ρ) :
    Kept s (step time s a) ∨
    (∃ f now, step time s a =
      { s with filters := f, query := query time now f }.effect) ∨
    ∃ r ∈ s.pending, ∃ answer, a = .receive r.run answer ∧ r.run = s.runs ∧ step time s a =
      State.display { s with pending := s.pending.filter (fun r => r.run ≠ s.runs) } answer := by
  cases a with
  | select f now =>
    simp only [step, State.select]
    split_ifs with hsame hquery
    · exact .inl ⟨rfl, rfl, rfl, rfl, rfl⟩
    · exact .inl ⟨rfl, rfl, rfl, rfl, rfl⟩
    · exact .inr (.inl ⟨f, now, rfl⟩)
  | fire =>
    simp only [step, State.fire]
    cases s.timer <;> exact .inl ⟨rfl, rfl, rfl, rfl, rfl⟩
  | receive run answer =>
    simp only [step, State.receive]
    split_ifs with hpending hlast
    · simp only [List.any_eq_true, decide_eq_true_eq] at hpending
      obtain ⟨r, hr, rfl⟩ := hpending
      exact .inr (.inr ⟨r, hr, answer, rfl, hlast, by rw [hlast]⟩)
    · exact .inl ⟨rfl, rfl, rfl, rfl, rfl⟩
    · exact .inl ⟨rfl, rfl, rfl, rfl, rfl⟩
  | toggle key => exact .inl ⟨rfl, rfl, rfl, rfl, rfl⟩

theorem effect_result (s : State ρ) : s.effect.result = none := by
  unfold State.effect
  cases s.query <;> rfl

theorem effect_of_not_busy (h : s.effect.busy = false) :
    s.effect.query = none ∧ s.effect.error = "结束时间须晚于开始时间" := by
  unfold State.effect at h ⊢
  cases hquery : s.query with
  | none => simp
  | some q => simp [hquery] at h

/-- The filters that are set, with the query that they gave at their last change. -/
def Reflects (time : String → Option ℤ) (s : State ρ) (last : Filters × ℤ) : Prop :=
  s.filters = last.1 ∧ s.query = query time last.2 last.1

theorem reflects_effect {last : Filters × ℤ} :
    Reflects time s.effect last ↔ Reflects time s last := by
  unfold Reflects State.effect
  cases hquery : s.query <;> simp

theorem Reflects.step {last : Filters × ℤ} (h : Reflects time s last) (a : Action ρ) :
    Reflects time (step time s a) (changed last a) := by
  cases a with
  | select f now =>
    simp only [Statistics.step, State.select, changed, h.1]
    split_ifs with hsame hquery
    · exact h
    · exact ⟨rfl, hquery.symm⟩
    · exact reflects_effect.mpr ⟨rfl, rfl⟩
  | fire =>
    simp only [Statistics.step, State.fire, changed]
    cases s.timer <;> exact h
  | receive run answer =>
    simp only [Statistics.step, State.receive, changed]
    split_ifs
    · cases answer <;> exact h
    · exact h
    · exact h
  | toggle key => exact h

/-! ## All runs -/

/-- What holds between the query, the timer and the requests. -/
structure Sound (s : State ρ) : Prop where
  timer : ∀ r, s.timer = some r → r.run = s.runs ∧ s.query = some r.query
  pending : ∀ r ∈ s.pending, r.run ≤ s.runs
  last : ∀ r ∈ s.pending, r.run = s.runs → s.query = some r.query ∧ s.timer = none
  busy : s.busy = true ↔ s.timer ≠ none ∨ ∃ r ∈ s.pending, r.run = s.runs

theorem Sound.effect (hpending : ∀ r ∈ s.pending, r.run ≤ s.runs) : Sound s.effect := by
  have hold : ∀ r ∈ s.pending, r.run ≠ s.runs + 1 := by
    intro r hr heq
    have hle := hpending r hr
    omega
  unfold State.effect
  cases hquery : s.query with
  | none =>
    refine ⟨by simp, fun r hr => (hpending r hr).trans (Nat.le_succ _),
      fun r hr heq => absurd heq (hold r hr), ?_⟩
    simpa using hold
  | some q =>
    refine ⟨?_, fun r hr => (hpending r hr).trans (Nat.le_succ _),
      fun r hr heq => absurd heq (hold r hr), by simp⟩
    rintro r hr
    cases hr
    exact ⟨rfl, rfl⟩

theorem Sound.fire (h : Sound s) : Sound s.fire := by
  unfold State.fire
  cases htimer : s.timer with
  | none => exact h
  | some due =>
    obtain ⟨hrun, hquery⟩ := h.timer due htimer
    refine ⟨by simp, fun r hr => ?_, fun r hr heq => ?_, ?_⟩
    · rcases List.mem_append.mp hr with hr | hr
      · exact h.pending r hr
      · rw [List.mem_singleton.mp hr, hrun]
    · refine ⟨?_, rfl⟩
      rcases List.mem_append.mp hr with hr | hr
      · exact (h.last r hr heq).1
      · rw [List.mem_singleton.mp hr]
        exact hquery
    · -- the request that was due is now under way
      have hbusy : s.busy = true := h.busy.mpr (.inl (by simp [htimer]))
      simp only [hbusy, true_iff]
      exact .inr ⟨due, by simp, hrun⟩

theorem Sound.receive (h : Sound s) (run : ℕ) (answer : Answer ρ) :
    Sound (s.receive run answer) := by
  have hkept : ∀ r ∈ s.pending.filter (fun r => r.run ≠ run), r ∈ s.pending ∧ r.run ≠ run := by
    intro r hr
    simpa using hr
  simp only [State.receive]
  split_ifs with hpending hlast
  · simp only [List.any_eq_true, decide_eq_true_eq] at hpending
    obtain ⟨r, hr, hrun⟩ := hpending
    have htimer : s.timer = none := (h.last r hr (hrun.trans hlast)).2
    cases answer
    all_goals
      refine ⟨h.timer, fun r hr => h.pending r (hkept r hr).1,
        fun r hr heq => absurd (heq.trans hlast.symm) (hkept r hr).2, ?_⟩
      simp only [State.display, htimer]
      simp [hlast]
  · refine ⟨h.timer, fun r hr => h.pending r (hkept r hr).1,
      fun r hr heq => h.last r (hkept r hr).1 heq, ?_⟩
    refine h.busy.trans (or_congr_right ⟨?_, ?_⟩)
    · rintro ⟨r, hr, heq⟩
      exact ⟨r, by simpa [hr] using fun he => hlast (he.symm.trans heq), heq⟩
    · rintro ⟨r, hr, heq⟩
      exact ⟨r, (hkept r hr).1, heq⟩
  · exact h

theorem Sound.step (h : Sound s) (time : String → Option ℤ) (a : Action ρ) :
    Sound (step time s a) := by
  cases a with
  | select f now =>
    simp only [Statistics.step, State.select]
    split_ifs with hsame hquery
    · exact h
    · exact ⟨h.timer, h.pending, h.last, h.busy⟩
    · exact Sound.effect h.pending
  | fire => exact h.fire
  | receive run answer => exact h.receive run answer
  | toggle key => exact ⟨h.timer, h.pending, h.last, h.busy⟩

theorem sound_run (time : String → Option ℤ) (now : ℤ) (f : Filters) (actions : List (Action ρ)) :
    Sound (run time now f actions) :=
  foldl_invariant (step time) (fun _ s => Sound s) (fun a _ _ h => h.step time a) actions _
    (Sound.effect (by simp))

theorem reflects_run (time : String → Option ℤ) (now : ℤ) (f : Filters)
    (actions : List (Action ρ)) :
    Reflects time (run time now f actions) (lastChange f now actions) :=
  foldl_simulation (step time) changed (fun _ s last => Reflects time s last)
    (fun a _ _ _ h => h.step a) actions _ _ (reflects_effect.mpr ⟨rfl, rfl⟩)

/-- The answer came to the request of the last run of the effect, which asked for `q`. -/
def Answered (time : String → Option ℤ) (now : ℤ) (f : Filters) (actions : List (Action ρ))
    (q : Query) (answer : Answer ρ) : Prop :=
  ∃ early late, ∃ r ∈ (run time now f early).pending,
    actions = early ++ .receive r.run answer :: late ∧
      r.run = (run time now f actions).runs ∧ r.query = q

/-- What the page shows, with the answers that it comes from. -/
structure Shows (time : String → Option ℤ) (now : ℤ) (f : Filters) (actions : List (Action ρ)) :
    Prop where
  result : ∀ data, (run time now f actions).result = some data →
    (run time now f actions).busy = false ∧ ∃ q, (run time now f actions).query = some q ∧
      Answered time now f actions q (.data data)
  idle : (run time now f actions).busy = false →
    (∃ data, (run time now f actions).result = some data) ∨
    ((run time now f actions).query = none ∧
      (run time now f actions).error = "结束时间须晚于开始时间") ∨
    ∃ q, (run time now f actions).query = some q ∧
      Answered time now f actions q (.failed (run time now f actions).error)

theorem run_concat (time : String → Option ℤ) (now : ℤ) (f : Filters) (actions : List (Action ρ))
    (a : Action ρ) :
    run time now f (actions ++ [a]) = step time (run time now f actions) a := by
  rw [run, List.foldl_append]
  rfl

theorem Answered.concat {actions : List (Action ρ)} {q : Query} {answer : Answer ρ}
    (h : Answered time now f actions q answer) {a : Action ρ}
    (hruns : (run time now f (actions ++ [a])).runs = (run time now f actions).runs) :
    Answered time now f (actions ++ [a]) q answer := by
  obtain ⟨early, late, r, hr, rfl, hrun, hq⟩ := h
  exact ⟨early, late ++ [a], r, hr, by simp, hrun.trans hruns.symm, hq⟩

theorem shows_effect {actions : List (Action ρ)} (heq : run time now f actions = s.effect) :
    Shows time now f actions := by
  refine ⟨fun data hdata => ?_, fun hidle => .inr (.inl ?_)⟩
  · rw [heq, effect_result] at hdata
    cases hdata
  · rw [heq] at hidle ⊢
    exact effect_of_not_busy hidle

theorem Shows.concat {actions : List (Action ρ)} (h : Shows time now f actions) (a : Action ρ) :
    Shows time now f (actions ++ [a]) := by
  rcases step_cases time (run time now f actions) a with hkept | ⟨g, later, heffect⟩ |
    ⟨r, hr, answer, rfl, hlast, hdisplay⟩
  · rw [← run_concat] at hkept
    refine ⟨fun data hdata => ?_, fun hidle => ?_⟩
    · rw [hkept.result] at hdata
      obtain ⟨hidle, q, hq, hanswered⟩ := h.result data hdata
      exact ⟨hkept.busy.trans hidle, q, hkept.query.trans hq, hanswered.concat hkept.runs⟩
    · rw [hkept.result, hkept.query, hkept.error]
      rcases h.idle (hkept.busy.symm.trans hidle) with hshown | hnone | ⟨q, hq, hfailed⟩
      · exact .inl hshown
      · exact .inr (.inl hnone)
      · exact .inr (.inr ⟨q, hq, hfailed.concat hkept.runs⟩)
  · exact shows_effect ((run_concat time now f actions a).trans heffect)
  · rw [← run_concat] at hdisplay
    have hquery := ((sound_run time now f actions).last r hr hlast).1
    have hanswered : (run time now f (actions ++ [.receive r.run answer])).runs = r.run →
        Answered time now f (actions ++ [.receive r.run answer]) r.query answer :=
      fun hruns => ⟨actions, [], r, hr, rfl, hruns.symm, rfl⟩
    have hbefore := (sound_run time now f actions).busy.mpr (.inr ⟨r, hr, hlast⟩)
    cases answer with
    | data result =>
      refine ⟨fun data hdata => ?_, fun _ => .inl ⟨result, by rw [hdisplay]; rfl⟩⟩
      rw [hdisplay] at hdata
      cases hdata
      exact ⟨by rw [hdisplay]; rfl, r.query, by rw [hdisplay]; exact hquery,
        hanswered (by rw [hdisplay]; exact hlast.symm)⟩
    | failed message =>
      refine ⟨fun data hdata => ?_, fun _ =>
        .inr (.inr ⟨r.query, by rw [hdisplay]; exact hquery, ?_⟩)⟩
      · -- nothing was shown while the request was under way
        rw [hdisplay] at hdata
        rw [(h.result data hdata).1] at hbefore
        cases hbefore
      · have herror : (run time now f (actions ++ [.receive r.run (.failed message)])).error =
            message := by rw [hdisplay]; rfl
        rw [herror]
        exact hanswered (by rw [hdisplay]; exact hlast.symm)

theorem shows_run (time : String → Option ℤ) (now : ℤ) (f : Filters) (actions : List (Action ρ)) :
    Shows time now f actions := by
  induction actions using List.reverseRecOn with
  | nil => exact shows_effect rfl
  | append_singleton actions a ih => exact ih.concat a

/-- Rows and export are those that the hub answered to the last request, which asked for the query
of the filters at their last change; the page waits exactly as long as it is open. -/
theorem statistics_of_filters (time : String → Option ℤ) (now : ℤ) (f : Filters)
    (actions : List (Action ρ)) :
    (run time now f actions).filters = (lastChange f now actions).1 ∧
    (run time now f actions).query =
      query time (lastChange f now actions).2 (lastChange f now actions).1 ∧
    (∀ data, (run time now f actions).result = some data →
      ∃ q, (run time now f actions).exported = some q ∧
        Answered time now f actions q (.data data)) ∧
    (∀ q, (run time now f actions).exported = some q →
      (run time now f actions).query = some q ∧
        ∃ data, (run time now f actions).result = some data) ∧
    ((run time now f actions).busy = true ↔ (run time now f actions).timer ≠ none ∨
      ∃ r ∈ (run time now f actions).pending, r.run = (run time now f actions).runs) ∧
    ((run time now f actions).busy = false →
      (∃ data, (run time now f actions).result = some data) ∨
      ((run time now f actions).filters.period = .custom ∧
        (run time now f actions).error = "结束时间须晚于开始时间") ∨
      ∃ q, (run time now f actions).query = some q ∧
        Answered time now f actions q (.failed (run time now f actions).error)) := by
  have hsound := sound_run time now f actions
  have hshows := shows_run time now f actions
  obtain ⟨hfilters, hquery⟩ := reflects_run time now f actions
  refine ⟨hfilters, hquery, fun data hdata => ?_, fun q hq => ?_, hsound.busy, fun hidle => ?_⟩
  · obtain ⟨hidle, q, hq, hanswered⟩ := hshows.result data hdata
    exact ⟨q, by simp [State.exported, hidle, hdata, hq], hanswered⟩
  · unfold State.exported at hq
    split_ifs at hq with hclosed
    simp only [not_or] at hclosed
    refine ⟨hq, ?_⟩
    simpa [Option.isNone_iff_eq_none, Option.ne_none_iff_exists'] using hclosed.2.1
  · rcases hshows.idle hidle with hshown | ⟨hnone, herror⟩ | hfailed
    · exact .inl hshown
    · have hcustom := custom_of_query_eq_none (hquery.symm.trans hnone)
      exact .inr (.inl ⟨hfilters ▸ hcustom, herror⟩)
    · exact .inr (.inr hfailed)

/-- A user is named while the first request is under way, whose answer then comes last. -/
example : (run (fun _ => none) 1700000000000 { start := "", stop := "" }
    [.fire, .select { start := "", stop := "", user := "amy" } 1700000001000, .fire,
      .receive 2 (.data (5 : ℕ)), .receive 1 (.data 7)]).result = some 5 := by decide

end CardScope.Web.Statistics
