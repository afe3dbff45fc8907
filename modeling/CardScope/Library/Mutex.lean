import CardScope.Library.Runs

/-! # Critical sections

Clients run programs under one lock, statement by statement, next to foreign statements that take no
lock. A program that only reads before its last statement, and reads nothing that a foreign statement
writes, takes effect at once when it executes its last statement: the state is at any time the one
that the recorded programs and foreign statements give one after the other, and each client gets the
answer of that order.
-/

namespace CardScope.Library

/-- A program over a shared state. One statement is executed at once: what it reads decides how the
program goes on, and it may write. -/
inductive Program (σ α : Type*) where
  | done (answer : α)
  | stmt (write : σ → σ) (next : σ → Program σ α)

namespace Program

variable {σ α : Type*}

def select (next : σ → Program σ α) : Program σ α := stmt id next

def exec : Program σ α → σ → σ × α
  | done a, s => (s, a)
  | stmt write next, s => (next s).exec (write s)

@[simp] theorem exec_done (a : α) (s : σ) : (done a).exec s = (s, a) := rfl

@[simp] theorem exec_stmt (write : σ → σ) (next : σ → Program σ α) (s : σ) :
    (stmt write next).exec s = (next s).exec (write s) := rfl

@[simp] theorem exec_select (next : σ → Program σ α) (s : σ) :
    (select next).exec s = (next s).exec s := rfl

def answer? : Program σ α → Option α
  | done a => some a
  | stmt _ _ => none

end Program

/-- Programs by request, and statements outside the lock. -/
structure Service (ρ φ σ α : Type*) where
  program : ρ → Program σ α
  foreign : σ → φ → σ

/-- Where a client is: with its request and the length that the history had at its call. -/
inductive Client (ρ σ α : Type*) where
  | idle
  | waiting (request : ρ) (since : ℕ)
  | inside (request : ρ) (rest : Program σ α) (since : ℕ)
  | answered (request : ρ) (answer : α) (since : ℕ)

/-- What took effect: a request of a client with its answer, or a foreign statement. -/
inductive Took (ι ρ φ α : Type*) where
  | ran (client : ι) (request : ρ) (answer : α)
  | foreign (f : φ)

/-- The shared state, the holder of the lock, the clients, and what took effect so far. -/
structure Shop (ι ρ φ σ α : Type*) where
  state : σ
  owner : Option ι
  clients : ι → Client ρ σ α
  history : List (Took ι ρ φ α)

inductive Move (ι ρ φ : Type*) where
  | call (i : ι) (r : ρ)
  | lock (i : ι)
  | stmt (i : ι)
  | unlock (i : ι)
  | foreign (f : φ)

variable {ι ρ φ σ α : Type*}

namespace Service

variable (service : Service ρ φ σ α)

def record (i : ι) (r : ρ) (rest : Program σ α) : List (Took ι ρ φ α) :=
  (rest.answer?.map (Took.ran i r)).toList

section Steps

variable [DecidableEq ι]

/-- One step; a step that is not possible leaves everything as it is. -/
def step (x : Shop ι ρ φ σ α) : Move ι ρ φ → Shop ι ρ φ σ α
  | .call i r => match x.clients i with
    | .idle | .answered _ _ _ =>
      { x with clients := Function.update x.clients i (.waiting r x.history.length) }
    | _ => x
  | .lock i => match x.owner, x.clients i with
    | none, .waiting r since =>
      { x with
        owner := some i
        clients := Function.update x.clients i (.inside r (service.program r) since)
        history := x.history ++ record i r (service.program r) }
    | _, _ => x
  | .stmt i => match x.clients i with
    | .inside r (.stmt write next) since =>
      { x with
        state := write x.state
        clients := Function.update x.clients i (.inside r (next x.state) since)
        history := x.history ++ record i r (next x.state) }
    | _ => x
  | .unlock i => match x.clients i with
    | .inside r (.done a) since =>
      { x with
        owner := none
        clients := Function.update x.clients i (.answered r a since) }
    | _ => x
  | .foreign f =>
    { x with
      state := service.foreign x.state f
      history := x.history ++ [.foreign f] }

def run (x : Shop ι ρ φ σ α) (moves : List (Move ι ρ φ)) : Shop ι ρ φ σ α :=
  moves.foldl service.step x

end Steps

def effect (s : σ) : Took ι ρ φ α → σ
  | .ran _ r _ => ((service.program r).exec s).1
  | .foreign f => service.foreign s f

def replay (s : σ) (history : List (Took ι ρ φ α)) : σ := history.foldl service.effect s

/-- Every recorded answer is the one that the program gives at its place. -/
def Answers (s : σ) (history : List (Took ι ρ φ α)) : Prop :=
  ∀ before i r a after, history = before ++ .ran i r a :: after →
    a = ((service.program r).exec (service.replay s before)).2

/-- Every statement but the last only reads, and reads nothing that a foreign statement writes. -/
def ReadsFirst : Program σ α → Prop
  | .done _ => True
  | .stmt write next => (∀ s, (next s).answer?.isSome) ∨
      write = id ∧ (∀ f s, next (service.foreign s f) = next s) ∧ ∀ s, ReadsFirst (next s)

theorem readsFirst_done (a : α) : service.ReadsFirst (.done a) := trivial

theorem readsFirst_stmt {write : σ → σ} {next : σ → Program σ α} :
    service.ReadsFirst (.stmt write next) ↔ (∀ s, (next s).answer?.isSome) ∨
      write = id ∧ (∀ f s, next (service.foreign s f) = next s) ∧
        ∀ s, service.ReadsFirst (next s) := Iff.rfl

attribute [irreducible] ReadsFirst

theorem readsFirst_select {next : σ → Program σ α}
    (hread : ∀ f s, next (service.foreign s f) = next s) (h : ∀ s, service.ReadsFirst (next s)) :
    service.ReadsFirst (.select next) :=
  (readsFirst_stmt service).mpr (.inr ⟨rfl, hread, h⟩)

theorem readsFirst_last {write : σ → σ} {next : σ → Program σ α}
    (h : ∀ s, (next s).answer?.isSome) : service.ReadsFirst (.stmt write next) :=
  (readsFirst_stmt service).mpr (.inl h)

/-- After any foreign statements, the two programs do the same. -/
def Agree (p q : Program σ α) (s : σ) : Prop :=
  ∀ fs : List φ, p.exec (fs.foldl service.foreign s) = q.exec (fs.foldl service.foreign s)

end Service

/-- The history has the record at the place `since` or later. -/
def RecordedSince (history : List (Took ι ρ φ α)) (since : ℕ) (e : Took ι ρ φ α) : Prop :=
  ∃ k, since ≤ k ∧ history[k]? = some e

section Invariant

variable {service : Service ρ φ σ α} {s₀ : σ} {x : Shop ι ρ φ σ α}

/-- What holds of a client. One that is inside holds the lock; what is left of its program does what
the whole program would do, or it took effect and is recorded. -/
def Placed (service : Service ρ φ σ α) (x : Shop ι ρ φ σ α) (i : ι) : Client ρ σ α → Prop
  | .idle => True
  | .waiting _ since => since ≤ x.history.length
  | .inside r rest since => x.owner = some i ∧ since ≤ x.history.length ∧ service.ReadsFirst rest ∧
      match rest.answer? with
      | none => service.Agree (service.program r) rest x.state
      | some a => RecordedSince x.history since (.ran i r a)
  | .answered r a since => RecordedSince x.history since (.ran i r a)

/-- The state is the one of the history, the answers are those of the history, and every client is
where it may be. -/
structure Serial (service : Service ρ φ σ α) (s₀ : σ) (x : Shop ι ρ φ σ α) : Prop where
  state : x.state = service.replay s₀ x.history
  answers : service.Answers s₀ x.history
  placed : ∀ i, Placed service x i (x.clients i)

theorem RecordedSince.mono {history history' : List (Took ι ρ φ α)} {since : ℕ} {e : Took ι ρ φ α}
    (h : RecordedSince history since e) (hext : history <+: history') :
    RecordedSince history' since e := by
  obtain ⟨k, hk, he⟩ := h
  obtain ⟨late, rfl⟩ := hext
  have hlt : k < history.length := (List.getElem?_eq_some_iff.mp he).1
  exact ⟨k, hk, by rw [List.getElem?_append_left hlt, he]⟩

theorem recordedSince_snoc {history : List (Took ι ρ φ α)} {since : ℕ}
    (hsince : since ≤ history.length) (e : Took ι ρ φ α) :
    RecordedSince (history ++ [e]) since e :=
  ⟨history.length, hsince, by simp⟩

theorem answers_snoc {history : List (Took ι ρ φ α)} {e : Took ι ρ φ α}
    (h : service.Answers s₀ history)
    (he : ∀ i r a, e = .ran i r a → a = ((service.program r).exec (service.replay s₀ history)).2) :
    service.Answers s₀ (history ++ [e]) := by
  intro before i r a after heq
  induction after using List.reverseRecOn with
  | nil =>
    obtain ⟨rfl, hlast⟩ := List.append_inj' heq rfl
    cases hlast
    exact he i r a rfl
  | append_singleton after last _ =>
    rw [← List.cons_append, ← List.append_assoc] at heq
    obtain ⟨rfl, -⟩ := List.append_inj' heq rfl
    exact h before i r a after rfl

theorem Serial.not_inside (h : Serial service s₀ x) {i : ι} (howner : x.owner ≠ some i) {r : ρ}
    {rest : Program σ α} {since : ℕ} : x.clients i ≠ .inside r rest since := by
  intro hi
  have hplaced := h.placed i
  rw [hi] at hplaced
  exact howner hplaced.1

theorem Placed.outside {x' : Shop ι ρ φ σ α} {i : ι} {c : Client ρ σ α} (h : Placed service x i c)
    (hout : ∀ r rest since, c ≠ .inside r rest since) (hhistory : x.history <+: x'.history) :
    Placed service x' i c := by
  cases c with
  | idle => trivial
  | waiting r since => exact h.trans hhistory.length_le
  | inside r rest since => exact absurd rfl (hout r rest since)
  | answered r a since => exact RecordedSince.mono h hhistory

theorem Placed.same {x' : Shop ι ρ φ σ α} {i : ι} {c : Client ρ σ α} (h : Placed service x i c)
    (howner : x'.owner = x.owner) (hstate : x'.state = x.state)
    (hhistory : x'.history = x.history) : Placed service x' i c := by
  cases c with
  | idle => trivial
  | waiting r since => simpa only [Placed, hhistory] using h
  | inside r rest since => simpa only [Placed, howner, hstate, hhistory] using h
  | answered r a since => simpa only [Placed, hhistory] using h

theorem replay_snoc (history : List (Took ι ρ φ α)) (e : Took ι ρ φ α) :
    service.replay s₀ (history ++ [e]) = service.effect (service.replay s₀ history) e := by
  simp [Service.replay]

variable [DecidableEq ι]

/-- A step of one client is about this client; the others stay where they are. -/
theorem placed_update {x' : Shop ι ρ φ σ α} {i : ι} {c : Client ρ σ α}
    (hclients : x'.clients = Function.update x.clients i c) (hi : Placed service x' i c)
    (hothers : ∀ j, j ≠ i → Placed service x' j (x.clients j)) (j : ι) :
    Placed service x' j (x'.clients j) := by
  rw [hclients]
  by_cases hj : j = i
  · subst hj
    simpa using hi
  · simpa [hj] using hothers j hj

theorem Serial.call (h : Serial service s₀ x) (i : ι) (r : ρ) :
    Serial service s₀ (service.step x (.call i r)) := by
  have hcalled : Serial service s₀
      { x with clients := Function.update x.clients i (.waiting r x.history.length) } := by
    refine ⟨h.state, h.answers, placed_update rfl le_rfl (fun j _ => ?_)⟩
    exact (h.placed j).same rfl rfl rfl
  cases hc : x.clients i with
  | idle | answered => simpa only [Service.step, hc] using hcalled
  | waiting | inside => simpa only [Service.step, hc] using h

/-- A client comes to the rest of its program: it took effect when this is an answer, else what is
left does what the whole program would do. -/
theorem Serial.arrive (h : Serial service s₀ x) {x' : Shop ι ρ φ σ α} {i : ι} {r : ρ}
    {rest : Program σ α} {since : ℕ} (hsince : since ≤ x.history.length)
    (hothers : ∀ j, j ≠ i → ∀ r rest since, x.clients j ≠ .inside r rest since)
    (hreads : service.ReadsFirst rest) (howner : x'.owner = some i)
    (hclients : x'.clients = Function.update x.clients i (.inside r rest since))
    (hhistory : x'.history = x.history ++ Service.record i r rest)
    (hdone : ∀ a, rest.answer? = some a → (service.program r).exec x.state = (x'.state, a))
    (hrest : rest.answer? = none →
      x'.state = x.state ∧ service.Agree (service.program r) rest x.state) :
    Serial service s₀ x' := by
  have hext : x.history <+: x'.history := by simp [hhistory]
  have hlen : since ≤ x'.history.length := hsince.trans hext.length_le
  cases ha : rest.answer? with
  | none =>
    obtain ⟨hstate, hagree⟩ := hrest ha
    have hsame : x'.history = x.history := by simp [hhistory, Service.record, ha]
    refine ⟨?_, ?_, placed_update hclients ?_ (fun j hj => ?_)⟩
    · rw [hstate, hsame, h.state]
    · rw [hsame]
      exact h.answers
    · refine ⟨howner, hlen, hreads, ?_⟩
      simpa only [ha, hstate] using hagree
    · exact (h.placed j).outside (hothers j hj) hext
  | some a =>
    have hexec := hdone a ha
    have hran : x'.history = x.history ++ [.ran i r a] := by simp [hhistory, Service.record, ha]
    refine ⟨?_, ?_, placed_update hclients ?_ (fun j hj => ?_)⟩
    · rw [hran, replay_snoc, ← h.state, Service.effect, hexec]
    · rw [hran]
      apply answers_snoc h.answers
      rintro j r' a' heq
      cases heq
      rw [← h.state, hexec]
    · refine ⟨howner, hlen, hreads, ?_⟩
      simp only [ha, hran]
      exact recordedSince_snoc hsince _
    · exact (h.placed j).outside (hothers j hj) hext

theorem Serial.lock (hprogram : ∀ r, service.ReadsFirst (service.program r))
    (h : Serial service s₀ x) (i : ι) : Serial service s₀ (service.step x (.lock i)) := by
  cases howner : x.owner with
  | some k => simpa only [Service.step, howner] using h
  | none =>
    cases hc : x.clients i with
    | idle | inside | answered => simpa only [Service.step, howner, hc] using h
    | waiting r since =>
      have hplaced := h.placed i
      rw [hc] at hplaced
      simp only [Service.step, howner, hc]
      apply h.arrive hplaced (fun j _ r rest since => h.not_inside (by simp [howner])) (hprogram r)
        rfl rfl rfl
      · intro a ha
        cases hp : service.program r with
        | done b => simpa [hp, Program.answer?] using ha
        | stmt write next => simp [hp, Program.answer?] at ha
      · intro _
        exact ⟨rfl, fun _ => rfl⟩

/-- A statement that is not the last reads what it would read after foreign statements. -/
theorem foreign_next {next : σ → Program σ α}
    (hnext : ∀ f s, next (service.foreign s f) = next s) (fs : List φ) (s : σ) :
    next (fs.foldl service.foreign s) = next s := by
  induction fs generalizing s with
  | nil => rfl
  | cons f fs ih => rw [List.foldl_cons, ih, hnext]

theorem Serial.stmt (h : Serial service s₀ x) (i : ι) :
    Serial service s₀ (service.step x (.stmt i)) := by
  cases hc : x.clients i with
  | idle | waiting | answered => simpa only [Service.step, hc] using h
  | inside r rest since =>
    cases rest with
    | done a => simpa only [Service.step, hc] using h
    | stmt write next =>
      have hplaced := h.placed i
      rw [hc] at hplaced
      obtain ⟨howner, hsince, hreads, hagree⟩ := hplaced
      rw [Service.readsFirst_stmt] at hreads
      simp only [Program.answer?] at hagree
      have hexec : (service.program r).exec x.state = (next x.state).exec (write x.state) :=
        hagree []
      have hothers : ∀ j, j ≠ i → ∀ r rest since, x.clients j ≠ .inside r rest since := by
        intro j hj r rest since
        apply h.not_inside
        rw [howner]
        exact fun heq => hj (Option.some.inj heq).symm
      have hnext : service.ReadsFirst (next x.state) := by
        rcases hreads with hlast | ⟨-, -, hreads⟩
        · cases hn : next x.state with
          | done a => exact service.readsFirst_done a
          | stmt write' next' =>
            have hsome := hlast x.state
            simp [hn, Program.answer?] at hsome
        · exact hreads x.state
      simp only [Service.step, hc]
      refine h.arrive hsince hothers hnext ?_ rfl rfl ?_ ?_
      · exact howner
      · intro a ha
        cases hn : next x.state with
        | done b =>
          obtain rfl : b = a := by simpa [hn, Program.answer?] using ha
          rw [hexec, hn]
          rfl
        | stmt write' next' => simp [hn, Program.answer?] at ha
      · intro hnone
        rcases hreads with hlast | ⟨rfl, hforeign, -⟩
        · have hsome := hlast x.state
          simp [hnone] at hsome
        · refine ⟨rfl, fun fs => ?_⟩
          rw [hagree fs, Program.exec_stmt, foreign_next hforeign]
          rfl

theorem Serial.unlock (h : Serial service s₀ x) (i : ι) :
    Serial service s₀ (service.step x (.unlock i)) := by
  cases hc : x.clients i with
  | idle | waiting | answered => simpa only [Service.step, hc] using h
  | inside r rest since =>
    cases rest with
    | stmt write next => simpa only [Service.step, hc] using h
    | done a =>
      have hplaced := h.placed i
      rw [hc] at hplaced
      obtain ⟨howner, -, -, hrecorded⟩ := hplaced
      simp only [Service.step, hc]
      refine ⟨h.state, h.answers, placed_update rfl hrecorded (fun j hj => ?_)⟩
      refine (h.placed j).outside (fun r' rest' since' => h.not_inside ?_) List.prefix_rfl
      rw [howner]
      exact fun heq => hj (Option.some.inj heq).symm

theorem Serial.foreign (h : Serial service s₀ x) (f : φ) :
    Serial service s₀ (service.step x (.foreign f)) := by
  refine ⟨?_, answers_snoc h.answers (fun i r a heq => by cases heq), fun j => ?_⟩
  · simp only [Service.step]
    rw [replay_snoc, ← h.state]
    rfl
  · have hplaced := h.placed j
    simp only [Service.step]
    cases hc : x.clients j with
    | idle | waiting | answered =>
      rw [hc] at hplaced
      exact hplaced.outside (fun _ _ _ heq => by cases heq) (List.prefix_append _ _)
    | inside r rest since =>
      rw [hc] at hplaced
      obtain ⟨howner, hsince, hreads, hrest⟩ := hplaced
      refine ⟨howner, hsince.trans (by simp), hreads, ?_⟩
      cases ha : rest.answer? with
      | none =>
        simp only [ha] at hrest ⊢
        exact fun fs => hrest (f :: fs)
      | some a =>
        simp only [ha] at hrest ⊢
        exact hrest.mono (List.prefix_append _ _)

theorem Serial.step (hprogram : ∀ r, service.ReadsFirst (service.program r))
    (h : Serial service s₀ x) (m : Move ι ρ φ) : Serial service s₀ (service.step x m) := by
  cases m with
  | call i r => exact h.call i r
  | lock i => exact h.lock hprogram i
  | stmt i => exact h.stmt i
  | unlock i => exact h.unlock i
  | foreign f => exact h.foreign f

theorem Serial.run (hprogram : ∀ r, service.ReadsFirst (service.program r))
    (h : Serial service s₀ x) (moves : List (Move ι ρ φ)) :
    Serial service s₀ (service.run x moves) :=
  foldl_invariant service.step (fun _ x => Serial service s₀ x)
    (fun m _ _ hx => hx.step hprogram m) moves x h

end Invariant

end CardScope.Library
