import CardScope.Web.Session
import CardScope.Web.Status

/-! # Polling the node list

Every user of the page has a loop that asks for the nodes again five seconds after the last answer, and
other parts of the page ask as well. An answer is shown only when no later request has been made and
the effect has neither run nor been cleaned up since the request.
-/

namespace CardScope.Web.Polling
open Library Session

/-- A request that is under way: its number, the generation it was made in, and the loop that waits
for it. -/
structure Request where
  number : ℕ
  session : ℕ
  loop : Option ℕ

/-- The loop that one run of the effect starts; `timer` while the next round is set. -/
structure Loop where
  user : User
  disposed : Bool := false
  timer : Bool := false

inductive Answer where
  | nodes (data : List Node)
  | failed (message : String)

/-- The state of the hook. `cleanup` is the loop that the registered clean-up ends. -/
structure State where
  nodes : List Node := []
  updated : ℤ := 0
  error : String := ""
  generation : ℕ := 0
  latestRequest : ℕ := 0
  pending : List Request := []
  loops : List Loop := []
  cleanup : Option ℕ := none

namespace State

/-- `refresh` as a rendering with this user made it, up to its request. Nothing is asked for without
a user. -/
def refresh (s : State) (user : Option User) (loop : Option ℕ) : State :=
  match user with
  | none => s
  | some _ =>
    { s with
      latestRequest := s.latestRequest + 1
      pending := s.pending ++ [⟨s.latestRequest + 1, s.generation, loop⟩] }

def dispose (s : State) : State :=
  match s.cleanup with
  | none => s
  | some k =>
    { s with
      loops := s.loops.modify k (fun l => { l with disposed := true, timer := false })
      generation := s.generation + 1
      cleanup := none }

/-- The effect for a user. The first round of its loop begins at once. -/
def effect (s : State) (user : Option User) : State :=
  let s := { s with generation := s.generation + 1 }
  match user with
  | none => { s with nodes := [], updated := 0, error := "" }
  | some u =>
    let started : State :=
      { s with loops := s.loops ++ [{ user := u }], cleanup := some s.loops.length }
    started.refresh (some u) (some s.loops.length)

def fire (s : State) (k : ℕ) : State :=
  match s.loops[k]? with
  | none => s
  | some l =>
    if l.timer then
      let due : State := { s with loops := s.loops.modify k (fun l => { l with timer := false }) }
      due.refresh (some l.user) (some k)
    else s

def current (s : State) (r : Request) : Bool :=
  r.session == s.generation && r.number == s.latestRequest

def display (s : State) (r : Request) (answer : Answer) (now : ℤ) : State :=
  if s.current r then
    match answer with
    | .nodes data => { s with nodes := data, updated := now, error := "" }
    | .failed message => { s with error := message }
  else s

/-- The loop that waited sets its timer unless it has been disposed of. -/
def resume (s : State) (loop : Option ℕ) : State :=
  match loop with
  | none => s
  | some k => { s with loops := s.loops.modify k (fun l => { l with timer := !l.disposed }) }

def receive (s : State) (number : ℕ) (answer : Answer) (now : ℤ) : State :=
  match s.pending.find? (fun r => r.number = number) with
  | none => s
  | some r =>
    let s := { s with pending := s.pending.filter (fun r => r.number ≠ number) }
    (s.display r answer now).resume r.loop

end State

/-- What can happen next. The effect runs after a rendering with another user, and its clean-up alone
when the page is left; `refresh` may be one of an earlier rendering. -/
inductive Action where
  | change (user : Option User)
  | unmount
  | fire (k : ℕ)
  | refresh (user : Option User)
  | receive (number : ℕ) (answer : Answer) (now : ℤ)
  | setError (message : String)

def step (s : State) : Action → State
  | .change user => s.dispose.effect user
  | .unmount => s.dispose
  | .fire k => s.fire k
  | .refresh user => s.refresh user none
  | .receive number answer now => s.receive number answer now
  | .setError message => { s with error := message }

def run (actions : List Action) : State := actions.foldl step {}

/-! ## Requests and answers -/

def Issues (s : State) (a : Action) (number : ℕ) : Prop :=
  s.latestRequest < number ∧ (step s a).latestRequest = number

def applied (s : State) : Action → Option ℕ
  | .receive number _ _ =>
    (s.pending.find? (fun r => r.number = number)).bind
      (fun r => if s.current r then some number else none)
  | _ => none

def appliedNumbers : State → List Action → List ℕ
  | _, [] => []
  | s, a :: rest => (applied s a).toList ++ appliedNumbers (step s a) rest

def Reruns (s : State) : Action → Prop
  | .change _ => True
  | .unmount => s.cleanup.isSome
  | _ => False

section Steps

variable {s : State} {a : Action} {number : ℕ} {answer : Answer} {now : ℤ}

/-- What a step does to the counters and to the requests under way. -/
structure Moves (s : State) (a : Action) (s' : State) : Prop where
  latest : s.latestRequest ≤ s'.latestRequest
  generation : s.generation ≤ s'.generation
  reruns : Reruns s a → s.generation < s'.generation
  pending : ∀ r ∈ s'.pending, r ∈ s.pending ∨ s.latestRequest < r.number ∧
    s'.latestRequest = r.number ∧ r.session = s'.generation

theorem moves_refresh {t : State} (hlatest : t.latestRequest = s.latestRequest)
    (hgeneration : s.generation ≤ t.generation) (hreruns : Reruns s a → s.generation < t.generation)
    (hpending : t.pending = s.pending) (user : Option User) (loop : Option ℕ) :
    Moves s a (t.refresh user loop) := by
  cases user with
  | none => exact ⟨hlatest.ge, hgeneration, hreruns, fun r hr => .inl (hpending ▸ hr)⟩
  | some u =>
    refine ⟨hlatest ▸ Nat.le_succ _, hgeneration, hreruns, ?_⟩
    intro r hr
    rcases List.mem_append.mp hr with hr | hr
    · exact .inl (hpending ▸ hr)
    · obtain rfl := List.mem_singleton.mp hr
      exact .inr ⟨hlatest ▸ Nat.lt_succ_self _, rfl, rfl⟩

theorem moves_refl (hquiet : ¬ Reruns s a) {t : State} (hlatest : t.latestRequest = s.latestRequest)
    (hgeneration : t.generation = s.generation) (hpending : ∀ r ∈ t.pending, r ∈ s.pending) :
    Moves s a t :=
  ⟨hlatest.ge, hgeneration.ge, fun h => absurd h hquiet, fun r hr => .inl (hpending r hr)⟩

theorem dispose_kept (s : State) : s.dispose.latestRequest = s.latestRequest ∧
    s.dispose.pending = s.pending ∧ s.generation ≤ s.dispose.generation ∧
      (s.cleanup.isSome → s.generation < s.dispose.generation) := by
  unfold State.dispose
  cases hcleanup : s.cleanup with
  | none => exact ⟨rfl, rfl, le_rfl, fun h => by cases h⟩
  | some k => exact ⟨rfl, rfl, Nat.le_succ _, fun _ => Nat.lt_succ_self _⟩

theorem resume_kept (s : State) (loop : Option ℕ) :
    (s.resume loop).latestRequest = s.latestRequest ∧ (s.resume loop).generation = s.generation ∧
      (s.resume loop).pending = s.pending ∧ (s.resume loop).nodes = s.nodes ∧
      (s.resume loop).updated = s.updated ∧ (s.resume loop).error = s.error := by
  cases loop <;> exact ⟨rfl, rfl, rfl, rfl, rfl, rfl⟩

theorem display_kept (s : State) (r : Request) (answer : Answer) (now : ℤ) :
    (s.display r answer now).latestRequest = s.latestRequest ∧
      (s.display r answer now).generation = s.generation ∧
      (s.display r answer now).pending = s.pending := by
  unfold State.display
  split_ifs
  · cases answer <;> exact ⟨rfl, rfl, rfl⟩
  · exact ⟨rfl, rfl, rfl⟩

theorem receive_kept (s : State) (number : ℕ) (answer : Answer) (now : ℤ) :
    (s.receive number answer now).latestRequest = s.latestRequest ∧
      (s.receive number answer now).generation = s.generation ∧
      (s.receive number answer now).pending = s.pending.filter (fun r => r.number ≠ number) := by
  unfold State.receive
  cases hfind : s.pending.find? (fun r => r.number = number) with
  | none =>
    refine ⟨rfl, rfl, (List.filter_eq_self.mpr ?_).symm⟩
    intro r hr
    simpa using List.find?_eq_none.mp hfind r hr
  | some r =>
    obtain ⟨hlatest, hgeneration, hpending, -⟩ := resume_kept
      (({ s with pending := s.pending.filter (fun r => r.number ≠ number) } : State).display r answer
        now) r.loop
    obtain ⟨hlatest', hgeneration', hpending'⟩ := display_kept
      { s with pending := s.pending.filter (fun r => r.number ≠ number) } r answer now
    exact ⟨hlatest.trans hlatest', hgeneration.trans hgeneration', hpending.trans hpending'⟩

theorem moves_step (s : State) (a : Action) : Moves s a (step s a) := by
  obtain ⟨hlatest, hpending, hle, hlt⟩ := dispose_kept s
  cases a with
  | change user =>
    cases user with
    | none =>
      exact ⟨hlatest.ge, Nat.le_succ_of_le hle, fun _ => Nat.lt_succ_of_le hle,
        fun r hr => .inl (hpending ▸ hr)⟩
    | some u =>
      change Moves s _ (State.refresh _ (some u) _)
      refine moves_refresh ?_ ?_ ?_ ?_ (some u) _
      · exact hlatest
      · exact Nat.le_succ_of_le hle
      · exact fun _ => Nat.lt_succ_of_le hle
      · exact hpending
  | unmount => exact ⟨hlatest.ge, hle, hlt, fun r hr => .inl (hpending ▸ hr)⟩
  | fire k =>
    change Moves s _ (s.fire k)
    unfold State.fire
    split
    · exact moves_refl id rfl rfl (fun r hr => hr)
    · split_ifs
      · apply moves_refresh
        · rfl
        · exact le_rfl
        · exact False.elim
        · rfl
      · exact moves_refl id rfl rfl (fun r hr => hr)
  | refresh user => exact moves_refresh (t := s) rfl le_rfl False.elim rfl user none
  | receive number answer now =>
    obtain ⟨hlatest, hgeneration, hpending⟩ := receive_kept s number answer now
    apply moves_refl id hlatest hgeneration
    intro r hr
    exact (List.mem_filter.mp (hpending ▸ hr)).1
  | setError message => exact moves_refl id rfl rfl (fun r hr => hr)

/-- An applied answer is that of the last request, made in the present generation, and no other answer
to it is awaited. -/
theorem applied_eq_some (h : applied s a = some number) : number = s.latestRequest ∧
    (∃ r ∈ s.pending, r.number = number ∧ r.session = s.generation) ∧
      ∀ r ∈ (step s a).pending, r.number ≠ number := by
  cases a with
  | receive n answer now =>
    obtain ⟨r, hfind, hcurrent⟩ := Option.bind_eq_some_iff.mp h
    split_ifs at hcurrent with hcur
    obtain rfl := Option.some_inj.mp hcurrent
    have hfound := List.find?_some hfind
    have hnumber : r.number = n := of_decide_eq_true hfound
    simp only [State.current, Bool.and_eq_true, beq_iff_eq] at hcur
    refine ⟨hnumber.symm.trans hcur.2, ⟨r, List.mem_of_find?_eq_some hfind, hnumber, hcur.1⟩, ?_⟩
    intro t ht
    change t ∈ (s.receive n answer now).pending at ht
    rw [(receive_kept s n answer now).2.2] at ht
    exact of_decide_eq_true (List.mem_filter.mp ht).2
  | change user => cases h
  | unmount => cases h
  | fire k => cases h
  | refresh user => cases h
  | setError message => cases h

end Steps

section Runs

variable {s : State} {number : ℕ}

/-- An answer that nobody awaits any more is older than all that are still applied. -/
theorem lt_of_mem_appliedNumbers {actions : List Action} (hissued : number ≤ s.latestRequest)
    (hgone : ∀ r ∈ s.pending, r.number ≠ number) {later : ℕ}
    (h : later ∈ appliedNumbers s actions) : number < later := by
  induction actions generalizing s with
  | nil => cases h
  | cons a rest ih =>
    rw [appliedNumbers, List.mem_append] at h
    have hmoves := moves_step s a
    rcases h with hnow | hlater
    · obtain ⟨hlatest, ⟨r, hr, hnumber, -⟩, -⟩ := applied_eq_some (Option.mem_toList.mp hnow)
      have hne := hgone r hr
      omega
    · apply ih (hissued.trans hmoves.latest) _ hlater
      intro r hr
      rcases hmoves.pending r hr with hold | ⟨hnew, -⟩
      · exact hgone r hold
      · omega

theorem pairwise_appliedNumbers (s : State) (actions : List Action) :
    (appliedNumbers s actions).Pairwise (· < ·) := by
  induction actions generalizing s with
  | nil => exact List.Pairwise.nil
  | cons a rest ih =>
    rw [appliedNumbers]
    cases happlied : applied s a with
    | none => exact ih (step s a)
    | some n =>
      obtain ⟨hlatest, -, hgone⟩ := applied_eq_some happlied
      apply List.pairwise_cons.mpr
      refine ⟨?_, ih (step s a)⟩
      intro later hlater
      exact lt_of_mem_appliedNumbers (hlatest.le.trans (moves_step s a).latest) hgone hlater

theorem run_concat (front : List Action) (a : Action) : run (front ++ [a]) = step (run front) a := by
  rw [run, List.foldl_append]
  rfl

/-- A request under way was made at some time, and while it is of the present generation the effect
has not run since. -/
theorem issued_of_pending (front : List Action) {r : Request} (hr : r ∈ (run front).pending) :
    r.session ≤ (run front).generation ∧ ∃ early a mid, front = early ++ a :: mid ∧
      Issues (run early) a r.number ∧ (r.session = (run front).generation →
        Along step (fun s c => ¬ Reruns s c) (run (early ++ [a])) mid) := by
  induction front using List.reverseRecOn with
  | nil => cases hr
  | append_singleton front b ih =>
    have hmoves := moves_step (run front) b
    rw [run_concat] at hr ⊢
    rcases hmoves.pending r hr with hold | ⟨hlt, hnumber, hsession⟩
    · obtain ⟨hle, early, a, mid, rfl, hissues, halong⟩ := ih hold
      refine ⟨hle.trans hmoves.generation, early, a, mid ++ [b], by simp, hissues, ?_⟩
      intro hsame
      have hquiet : ¬ Reruns (run (early ++ a :: mid)) b := by
        intro hreruns
        have hlt := hmoves.reruns hreruns
        omega
      have hbefore : r.session = (run (early ++ a :: mid)).generation :=
        le_antisymm hle (hsame ▸ hmoves.generation)
      have hend : mid.foldl step (run (early ++ [a])) = run (early ++ a :: mid) := by
        rw [run, run, ← List.foldl_append, List.append_assoc]
        rfl
      exact along_append.mpr ⟨halong hbefore, hend ▸ hquiet, trivial⟩
    · refine ⟨hsession.le, front, b, [], rfl, ⟨hlt, hnumber⟩, fun _ => trivial⟩

end Runs

/-! ## What is shown -/

section Shown

variable {s : State} {number : ℕ} {answer : Answer} {now : ℤ}

def State.shown (s : State) : List Node × ℤ × String := (s.nodes, s.updated, s.error)

theorem shown_resume (s : State) (loop : Option ℕ) : (s.resume loop).shown = s.shown := by
  cases loop <;> rfl

theorem shown_refresh (s : State) (user : Option User) (loop : Option ℕ) :
    (s.refresh user loop).shown = s.shown := by
  cases user <;> rfl

theorem shown_dispose (s : State) : s.dispose.shown = s.shown := by
  unfold State.dispose
  cases s.cleanup <;> rfl

/-- What is shown after an answer that is applied. -/
def State.answered (s : State) (answer : Answer) (now : ℤ) : List Node × ℤ × String :=
  match answer with
  | .nodes data => (data, now, "")
  | .failed message => (s.nodes, s.updated, message)

theorem shown_display (s : State) (r : Request) (answer : Answer) (now : ℤ) :
    (s.display r answer now).shown = if s.current r then s.answered answer now else s.shown := by
  unfold State.display
  split_ifs
  · cases answer <;> rfl
  · rfl

theorem shown_receive (s : State) (number : ℕ) (answer : Answer) (now : ℤ) :
    (s.receive number answer now).shown =
      if applied s (.receive number answer now) = some number then s.answered answer now
      else s.shown := by
  unfold State.receive
  rw [applied]
  cases hfind : s.pending.find? (fun r => r.number = number) with
  | none => rfl
  | some r =>
    have hshown := shown_display { s with pending := s.pending.filter (fun r => r.number ≠ number) } r
      answer now
    dsimp only
    rw [shown_resume, hshown, Option.bind_some]
    change (if s.current r then s.answered answer now else s.shown) = _
    by_cases hcurrent : s.current r = true
    · rw [if_pos hcurrent, if_pos hcurrent, if_pos rfl]
    · rw [if_neg hcurrent, if_neg hcurrent, if_neg (Option.some_ne_none number).symm]

theorem nodes_changed {a : Action} (h : (step s a).nodes ≠ s.nodes) :
    a = .change none ∧ (step s a).nodes = [] ∨ ∃ number data now, a = .receive number (.nodes data) now ∧
      applied s a = some number ∧ (step s a).nodes = data := by
  cases a with
  | change user =>
    cases user with
    | none => exact .inl ⟨rfl, rfl⟩
    | some u => exact absurd (congrArg Prod.fst (shown_dispose s)) h
  | unmount => exact absurd (congrArg Prod.fst (shown_dispose s)) h
  | fire k =>
    exfalso
    apply h
    change (s.fire k).nodes = s.nodes
    unfold State.fire
    split
    · rfl
    · split_ifs
      · rfl
      · rfl
  | refresh user => exact absurd (congrArg Prod.fst (shown_refresh s user none)) h
  | receive number answer now =>
    have hshown := shown_receive s number answer now
    split_ifs at hshown with happlied
    · cases answer with
      | nodes data => exact .inr ⟨number, data, now, rfl, happlied, congrArg Prod.fst hshown⟩
      | failed message => exact absurd (congrArg Prod.fst hshown) h
    · exact absurd (congrArg Prod.fst hshown) h
  | setError message => exact absurd rfl h

end Shown

/-- Applied answers have increasing numbers and belong to the present run of the effect, and what is
shown changes only with them or when the user is gone. -/
theorem answers_in_order (actions : List Action) :
    (appliedNumbers {} actions).Pairwise (· < ·) ∧
    (∀ front b late number, actions = front ++ b :: late → applied (run front) b = some number →
      ∃ early a mid, front = early ++ a :: mid ∧ Issues (run early) a number ∧
        Along step (fun s c => ¬ Reruns s c) (run (early ++ [a])) mid) ∧
    (∀ front number answer now late, actions = front ++ .receive number answer now :: late →
      applied (run front) (.receive number answer now) = none →
        (run (front ++ [.receive number answer now])).shown = (run front).shown) ∧
    ∀ front b late, actions = front ++ b :: late → (run (front ++ [b])).nodes ≠ (run front).nodes →
      b = .change none ∧ (run (front ++ [b])).nodes = [] ∨
        ∃ number data now, b = .receive number (.nodes data) now ∧
          applied (run front) b = some number ∧ (run (front ++ [b])).nodes = data := by
  refine ⟨pairwise_appliedNumbers {} actions, ?_, ?_, ?_⟩
  · intro front b late number _ happlied
    obtain ⟨-, ⟨r, hr, rfl, hsession⟩, -⟩ := applied_eq_some happlied
    obtain ⟨-, early, a, mid, hfront, hissues, halong⟩ := issued_of_pending front hr
    exact ⟨early, a, mid, hfront, hissues, halong hsession⟩
  · intro front number answer now late _ hnone
    rw [run_concat]
    apply (shown_receive (run front) number answer now).trans
    rw [hnone]
    exact if_neg (Option.some_ne_none number).symm
  · intro front b late _ hchanged
    rw [run_concat] at hchanged ⊢
    exact nodes_changed hchanged

/-- Of two answers that overtake each other only that to the later request is applied. -/
example : appliedNumbers {} [.refresh (some ⟨"alice", .admin, "token"⟩),
    .refresh (some ⟨"alice", .admin, "token"⟩), .receive 2 (.nodes []) 5000,
    .receive 1 (.failed "") 5001] = [2] := by decide

end CardScope.Web.Polling
