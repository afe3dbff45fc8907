import CardScope.Library.Runs

/-! # The session of a page

Signing in sets the user and the token that further requests carry. Signing out clears both, and so
does any request that the hub refuses for want of a session, whenever its answer comes.
-/

namespace CardScope.Web.Session
open Library

inductive Role where
  | admin
  | viewer
deriving DecidableEq

structure User where
  username : String
  role : Role
  csrf : String
deriving DecidableEq

/-- What waits for an answer. -/
inductive Caller where
  | me (mount : ℕ)
  | login
  | signOut
  | other
deriving DecidableEq

/-- A request that `api` has sent. The last field is history: the session it was sent in, if any. -/
structure Request where
  path : String
  method : String
  token : String
  caller : Caller
  session : Option ℕ
deriving DecidableEq

/-- An answer that could be decoded; its value is read where a user is asked for. -/
structure Answer where
  status : ℕ
  value : User
deriving DecidableEq

def Answer.ok (a : Answer) : Bool := 200 ≤ a.status ∧ a.status < 300

/-- The state of the page. `active` is the run of the effect that has not been cleaned up. The number
of sessions so far is history. -/
structure State where
  csrf : String := ""
  user : Option User := none
  ready : Bool := false
  mounts : ℕ := 0
  active : Option ℕ := none
  pending : List Request := []
  sessions : ℕ := 0
deriving DecidableEq

namespace State

def session (s : State) : Option ℕ := if s.user.isSome then some s.sessions else none

def signIn (s : State) (value : User) : State :=
  { s with csrf := value.csrf, user := some value, sessions := s.sessions + 1 }

def clearSession (s : State) : State := { s with csrf := "", user := none }

/-- A call of `api` until its request is out. -/
def send (s : State) (path method : String) (caller : Caller) : State :=
  { s with pending := s.pending ++ [⟨path, method, s.csrf, caller, s.session⟩] }

def mount (s : State) : State :=
  { s with active := some s.mounts, mounts := s.mounts + 1 }.send "/me" "GET" (.me s.mounts)

def unmount (s : State) : State := { s with active := none }

/-- Nobody listens to the event when the effect has been cleaned up. -/
def authExpired (s : State) : State := if s.active.isSome then s.clearSession else s

def deliver (s : State) (caller : Caller) (value : User) : State :=
  match caller with
  | .me mount => if s.active = some mount then s.signIn value else s
  | .login => s.signIn value
  | .signOut => s.clearSession
  | .other => s

/-- The rest of `api` and of its caller. Without an answer that can be decoded `api` fails before it
looks at the status. -/
def settle (s : State) (r : Request) (answer : Option Answer) : State :=
  match answer with
  | none => s
  | some a =>
    if !a.ok then
      if a.status = 401 ∧ r.path ≠ "/login" then s.authExpired else s
    else s.deliver r.caller a.value

def finish (s : State) (caller : Caller) : State :=
  match caller with
  | .me mount => if s.active = some mount then { s with ready := true } else s
  | _ => s

end State

/-- What can happen next. Any other part of the page may send a request; an answer may come in any
order, be lost or not be decodable. -/
inductive Action where
  | mount
  | unmount
  | login
  | signOut
  | request (path method : String)
  | respond (i : ℕ) (answer : Option Answer)
deriving DecidableEq

def step (s : State) : Action → State
  | .mount => s.mount
  | .unmount => s.unmount
  | .login => s.send "/login" "POST" .login
  | .signOut => s.send "/logout" "POST" .signOut
  | .request path method => s.send path method .other
  | .respond i answer =>
    match s.pending[i]? with
    | none => s
    | some r =>
      let s := { s with pending := s.pending.eraseIdx i }
      (s.settle r answer).finish r.caller

def run (actions : List Action) : State := actions.foldl step {}

/-! ## Old answers -/

/-- The action is the answer to a request of a session that is not the present one. -/
def Old (s : State) (a : Action) : Prop :=
  ∃ i answer r k, a = .respond i answer ∧ s.pending[i]? = some r ∧ r.session = some k ∧
    s.session ≠ some k

/-- The answer clears the session of the signed-in user, or signs another user in. -/
def Intrudes (s : State) (r : Request) (a : Answer) : Prop :=
  (a.status = 401 ∧ r.path ≠ "/login" ∧ s.active.isSome ∨ a.ok ∧ r.caller = .signOut) ∧
      s.user.isSome ∨
    a.ok ∧ (r.caller = .login ∨ ∃ mount, r.caller = .me mount ∧ s.active = some mount) ∧
      s.user ≠ some a.value

/-- An old answer changes neither the user nor the token. -/
def Undisturbed (s : State) (a : Action) : Prop :=
  Old s a → (step s a).user = s.user ∧ (step s a).csrf = s.csrf

def Tame (s : State) (a : Action) : Prop :=
  Old s a → ∀ i answer r, a = .respond i (some answer) → s.pending[i]? = some r →
    ¬ Intrudes s r answer

section Sessions

variable {s : State} {r : Request} {a : Answer}

/-! ## The token -/

def TokenOfUser (s : State) : Prop := s.csrf = s.user.elim "" User.csrf

theorem tokenOfUser_finish (h : TokenOfUser s) (caller : Caller) : TokenOfUser (s.finish caller) := by
  unfold State.finish
  split
  · split_ifs
    · exact h
    · exact h
  · exact h

theorem tokenOfUser_deliver (h : TokenOfUser s) (caller : Caller) (value : User) :
    TokenOfUser (s.deliver caller value) := by
  cases caller with
  | me mount =>
    rw [State.deliver]
    split_ifs
    · exact rfl
    · exact h
  | login => exact rfl
  | signOut => exact rfl
  | other => exact h

theorem tokenOfUser_authExpired (h : TokenOfUser s) : TokenOfUser s.authExpired := by
  unfold State.authExpired
  split_ifs
  · exact rfl
  · exact h

theorem tokenOfUser_settle (h : TokenOfUser s) (r : Request) (answer : Option Answer) :
    TokenOfUser (s.settle r answer) := by
  cases answer with
  | none => exact h
  | some a =>
    rw [State.settle]
    split_ifs
    · exact tokenOfUser_authExpired h
    · exact h
    · exact tokenOfUser_deliver h r.caller a.value

theorem tokenOfUser_step (h : TokenOfUser s) (b : Action) : TokenOfUser (step s b) := by
  cases b with
  | mount => exact h
  | unmount => exact h
  | login => exact h
  | signOut => exact h
  | request path method => exact h
  | respond i answer =>
    rw [step]
    split
    · exact h
    · rename_i r _
      apply tokenOfUser_finish
      apply tokenOfUser_settle
      exact h

theorem tokenOfUser_run (actions : List Action) : TokenOfUser (run actions) :=
  foldl_invariant step (fun _ s => TokenOfUser s) (fun b _ _ h => tokenOfUser_step h b) actions {} rfl

/-! ## What an answer changes -/

def Same (s s' : State) : Prop := s'.user = s.user ∧ s'.csrf = s.csrf

theorem same_finish (s : State) (caller : Caller) : Same s (s.finish caller) := by
  unfold State.finish
  split
  · split_ifs
    · exact ⟨rfl, rfl⟩
    · exact ⟨rfl, rfl⟩
  · exact ⟨rfl, rfl⟩

theorem same_clearSession (h : TokenOfUser s) : Same s s.clearSession ↔ s.user = none := by
  constructor
  · exact fun hsame => hsame.1.symm
  · intro hnone
    rw [TokenOfUser, hnone] at h
    exact ⟨hnone.symm, h.symm⟩

theorem same_signIn (h : TokenOfUser s) (value : User) :
    Same s (s.signIn value) ↔ s.user = some value := by
  constructor
  · exact fun hsame => hsame.1.symm
  · intro hsome
    rw [TokenOfUser, hsome] at h
    exact ⟨hsome.symm, h.symm⟩

theorem same_authExpired (h : TokenOfUser s) :
    Same s s.authExpired ↔ ¬ (s.active.isSome ∧ s.user.isSome) := by
  unfold State.authExpired
  by_cases hactive : s.active.isSome
  · rw [if_pos hactive, same_clearSession h]
    simp [hactive]
  · rw [if_neg hactive]
    exact iff_of_true ⟨rfl, rfl⟩ (fun hboth => hactive hboth.1)

theorem same_deliver (h : TokenOfUser s) (caller : Caller) (value : User) :
    Same s (s.deliver caller value) ↔ ¬ (caller = .signOut ∧ s.user.isSome ∨
      (caller = .login ∨ ∃ mount, caller = .me mount ∧ s.active = some mount) ∧
        s.user ≠ some value) := by
  cases caller with
  | me mount =>
    rw [State.deliver]
    split_ifs with hactive
    · rw [same_signIn h]
      simp [hactive]
    · exact iff_of_true ⟨rfl, rfl⟩ (by simp [hactive])
  | login =>
    rw [State.deliver, same_signIn h]
    simp
  | signOut =>
    rw [State.deliver, same_clearSession h]
    simp
  | other => exact iff_of_true ⟨rfl, rfl⟩ (by simp)

theorem same_settle (h : TokenOfUser s) : Same s (s.settle r (some a)) ↔ ¬ Intrudes s r a := by
  rw [State.settle, Intrudes]
  by_cases hok : a.ok = true
  · have hstatus : a.status ≠ 401 := by
      have hrange := of_decide_eq_true hok
      omega
    rw [if_neg (by simp [hok]), same_deliver h]
    simp [hok, hstatus]
  · rw [if_pos (by simpa using hok)]
    by_cases hexpired : a.status = 401 ∧ r.path ≠ "/login"
    · rw [if_pos hexpired, same_authExpired h]
      simp [hok, hexpired]
    · rw [if_neg hexpired]
      apply iff_of_true ⟨rfl, rfl⟩
      rintro (⟨⟨hstatus, hpath, -⟩ | ⟨hyes, -⟩, -⟩ | ⟨hyes, -⟩)
      · exact hexpired ⟨hstatus, hpath⟩
      · exact hok hyes
      · exact hok hyes

/-- An old answer leaves the present session alone exactly when it does not intrude. -/
theorem undisturbed_iff (h : TokenOfUser s) (b : Action) : Undisturbed s b ↔ Tame s b := by
  apply imp_congr_right
  rintro ⟨i, answer, r, k, rfl, hr, -⟩
  have hstep : Same s (step s (.respond i answer)) ↔
      Same s (({ s with pending := s.pending.eraseIdx i } : State).settle r answer) := by
    have hfinish := same_finish
      (({ s with pending := s.pending.eraseIdx i } : State).settle r answer) r.caller
    simp only [step, hr, Same, hfinish.1, hfinish.2]
  change Same s (step s (.respond i answer)) ↔ _
  rw [hstep]
  cases answer with
  | none =>
    apply iff_of_true ⟨rfl, rfl⟩
    intro i' a' r' hrespond
    cases hrespond
  | some a =>
    have hsettle := same_settle (s := { s with pending := s.pending.eraseIdx i }) (r := r) (a := a) h
    apply Iff.trans hsettle
    constructor
    · rintro hnot i' a' r' hrespond hr'
      cases hrespond
      obtain rfl := Option.some_inj.mp (hr.symm.trans hr')
      exact hnot
    · exact fun hall => hall i a r rfl hr

end Sessions

/-- In a run of the page, old answers leave user and token alone exactly when none of them clears
the present session or signs another user in. -/
theorem sessions_undisturbed_iff (actions : List Action) :
    (∀ early b, early ++ [b] <+: actions → Undisturbed (run early) b) ↔
      Along step Tame {} actions := by
  rw [along_iff]
  apply forall_congr'
  intro early
  apply forall_congr'
  intro b
  apply imp_congr_right
  intro _
  exact undisturbed_iff (tokenOfUser_run early) b

/-- A user signs out while a request is under way, and another one signs in. -/
def lateAnswer : List Action :=
  [.mount, .respond 0 none, .login, .respond 0 (some ⟨200, "alice", .admin, "token-a"⟩),
    .request "/nodes" "GET", .signOut, .respond 1 (some ⟨200, "alice", .admin, "token-a"⟩), .login,
    .respond 1 (some ⟨200, "bob", .viewer, "token-b"⟩)]

/-- The late answer to the first user signs the second one out. -/
theorem late_answer_clears_session : ¬ ∀ actions : List Action, ∀ early b, early ++ [b] <+: actions →
    Undisturbed (run early) b := by
  intro h
  have hstep := h (lateAnswer ++ [.respond 0 (some ⟨401, "", .viewer, ""⟩)]) lateAnswer _
    (List.prefix_refl _)
  have hold : Old (run lateAnswer) (.respond 0 (some ⟨401, "", .viewer, ""⟩)) :=
    ⟨0, _, ⟨"/nodes", "GET", "token-a", .other, some 1⟩, 1, rfl, by decide, rfl, by decide⟩
  exact absurd (hstep hold).1 (by decide)

end CardScope.Web.Session
