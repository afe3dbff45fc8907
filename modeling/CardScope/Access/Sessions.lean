import CardScope.Hub.Accounts
import CardScope.Hub.Prune
import CardScope.Library.Runs

/-! # Sessions and password changes

Any number of logins run next to password changes, statement by statement. The hub is watched
through two counters that it does not have itself: how often the password of an account was
changed, and how often it had been when the password behind a session was checked.
-/

namespace CardScope.Access
open Library Model Hub

/-- A login between its statements, with the number of password changes that the account had
seen when it was read. -/
inductive Login where
  | read (password : String) (account : Option AccountRow) (changes : ℕ)
  | passed (account : AccountRow) (changes : ℕ)

/-- The store, the logins under way and the counters. -/
structure Desk where
  store : Store
  logins : ℕ → Option Login
  changes : String → ℕ
  opened : String → ℕ

/-- A step of login `i`, a password change, or the end of sessions by logout and cleanup. -/
inductive Action where
  | read (i : ℕ) (c : Credentials)
  | check (i : ℕ)
  | insert (i : ℕ) (hash csrf : String) (now : ℤ)
  | change (c : Credentials) (salted : String)
  | logout (hash : String)
  | cleanup (now : ℤ)

/-- One step. A step that the login has not reached leaves everything as it is. -/
def step (p : Platform) (d : Desk) : Action → Desk
  | .read i c =>
    let found := readAccount d.store c.username
    let login := Login.read c.password found (d.changes c.username)
    { d with logins := Function.update d.logins i (some login) }
  | .check i =>
    match d.logins i with
    | some (.read password account changes) =>
      let login := (checkPassword p account password).map (fun a => Login.passed a changes)
      { d with logins := Function.update d.logins i login }
    | _ => d
  | .insert i hash csrf now =>
    match d.logins i with
    | some (.passed account changes) =>
      match insertSession d.store (newSession hash account.username csrf now) with
      | some st =>
        { d with
          store := st
          logins := Function.update d.logins i none
          opened := Function.update d.opened hash changes }
      | none => { d with logins := Function.update d.logins i none }
    | _ => d
  | .change c salted =>
    if validPassword c then
      { d with
        store := changePassword d.store c.username salted
        changes := Function.update d.changes c.username (d.changes c.username + 1) }
    else d
  | .logout hash => { d with store := Hub.logout d.store hash }
  | .cleanup now =>
    { d with store := { d.store with sessions := d.store.sessions.keep (fun s => s.expires ≥ now) } }

def run (p : Platform) (d : Desk) (actions : List Action) : Desk := actions.foldl (step p) d

def start (st : Store) : Desk := ⟨st, fun _ => none, fun _ => 0, fun _ => 0⟩

/-- No session of an account was opened with a password from before its last change. -/
def Current (d : Desk) : Prop := ∀ s ∈ d.store.sessions, d.opened s.hash = d.changes s.username

instance (d : Desk) : Decidable (Current d) := inferInstanceAs
  (Decidable (∀ s ∈ d.store.sessions.rows, d.opened s.hash = d.changes s.username))

/-- A login that opens a session does so while the password is the one it has read. -/
def Unchanged (d : Desk) : Action → Prop
  | .insert i hash _ _ => ∀ account changes, d.logins i = some (.passed account changes) →
      ¬ d.store.sessions.HasKey hash → d.changes account.username = changes
  | _ => True

variable {p : Platform} {d : Desk} {a : Action}

theorem Current.keep (h : Current d) {st : Store} {q : SessionRow → Bool}
    (hs : st.sessions = d.store.sessions.keep q) : Current { d with store := st } := by
  intro s hmem
  rw [hs] at hmem
  exact h s (Table.mem_keep.mp hmem).1

theorem Current.change (h : Current d) (username salted : String) :
    Current { d with
      store := changePassword d.store username salted
      changes := Function.update d.changes username (d.changes username + 1) } := by
  intro s hs
  obtain ⟨hs, hne⟩ := Table.mem_keep.mp hs
  change d.opened s.hash = Function.update d.changes username (d.changes username + 1) s.username
  rw [Function.update_of_ne (of_decide_eq_true hne)]
  exact h s hs

def opened (d : Desk) (s : SessionRow) (hfree : ¬ d.store.sessions.HasKey s.hash) (changes : ℕ)
    (logins : ℕ → Option Login) : Desk where
  store := { d.store with sessions := d.store.sessions.insert s hfree }
  logins := logins
  changes := d.changes
  opened := Function.update d.opened s.hash changes

/-- A new session is current exactly when the password has not changed since it was checked. -/
theorem current_opened_iff (h : Current d) {s : SessionRow}
    (hfree : ¬ d.store.sessions.HasKey s.hash) (changes : ℕ) (logins : ℕ → Option Login) :
    Current (opened d s hfree changes logins) ↔ d.changes s.username = changes := by
  constructor
  · intro hc
    have hnew := hc s List.mem_cons_self
    change Function.update d.opened s.hash changes s.hash = d.changes s.username at hnew
    rw [Function.update_self] at hnew
    exact hnew.symm
  · intro hsame r hr
    change Function.update d.opened s.hash changes r.hash = d.changes r.username
    rcases List.mem_cons.mp hr with rfl | hr
    · rw [Function.update_self, hsame]
    · have hne : r.hash ≠ s.hash := fun he => hfree ⟨r, hr, he⟩
      rw [Function.update_of_ne hne]
      exact h r hr

theorem step_insert (p : Platform) {i : ℕ} {account : AccountRow} {changes : ℕ}
    (hl : d.logins i = some (.passed account changes)) (hash csrf : String) (now : ℤ) :
    step p d (.insert i hash csrf now) =
      if hfree : d.store.sessions.HasKey hash
      then { d with logins := Function.update d.logins i none }
      else opened d (newSession hash account.username csrf now) hfree changes
        (Function.update d.logins i none) := by
  simp only [step, hl]
  unfold insertSession
  by_cases hfree : d.store.sessions.HasKey hash
  · rw [dif_pos hfree, dif_pos (show d.store.sessions.HasKey (newSession _ _ _ _).hash from hfree)]
  · rw [dif_neg hfree, dif_neg (show ¬ d.store.sessions.HasKey (newSession _ _ _ _).hash from hfree)]
    rfl

/-- While sessions are current, a step keeps them so exactly when it is no late insertion. -/
theorem current_step_iff (h : Current d) (a : Action) : Current (step p d a) ↔ Unchanged d a := by
  cases a with
  | read i c => exact iff_of_true h trivial
  | check i =>
    refine iff_of_true ?_ trivial
    simp only [step]
    split <;> exact h
  | insert i hash csrf now =>
    rcases hl : d.logins i with _ | ⟨password, account, changes⟩ | ⟨account, changes⟩
    · refine iff_of_true ?_ (fun account changes heq => absurd (hl.symm.trans heq) (by simp))
      simp only [step, hl]
      exact h
    · refine iff_of_true ?_ (fun account changes heq => absurd (hl.symm.trans heq) (by simp))
      simp only [step, hl]
      exact h
    · have hcond : Unchanged d (.insert i hash csrf now) ↔
          (¬ d.store.sessions.HasKey hash → d.changes account.username = changes) := by
        constructor
        · exact fun hall => hall account changes hl
        · intro hone account' changes' heq
          cases hl.symm.trans heq
          exact hone
      rw [hcond, step_insert p hl]
      split_ifs with hfree
      · exact iff_of_true h (fun hf => absurd hfree hf)
      · rw [current_opened_iff h hfree]
        exact ⟨fun hsame _ => hsame, fun hall => hall hfree⟩
  | change c salted =>
    refine iff_of_true ?_ trivial
    simp only [step]
    split_ifs
    · exact h.change c.username salted
    · exact h
  | logout hash => exact iff_of_true (h.keep rfl) trivial
  | cleanup now => exact iff_of_true (h.keep rfl) trivial

/-- In every run, no session ever outlives a change of the password it was opened with, exactly
when every login opens its session while the password is the one it has read. -/
theorem sessions_current_iff (p : Platform) (st : Store) (actions : List Action) :
    (∀ early, early <+: actions → Current (run p (start st) early)) ↔
      Along (step p) Unchanged (start st) actions :=
  forall_prefix_iff_along Current (fun _ a h => current_step_iff h a) actions (fun _ _ => rfl)

/-- The account of the viewer with its first password. -/
def viewerStore : Store :=
  { freshStore (node "n") with
    accounts := Table.empty.insert ⟨"viewer", "$2a$12$first-password", "viewer"⟩
      (by rintro ⟨_, ⟨⟩, _⟩) }

/-- A login that has read the old password opens its session after the change. -/
theorem session_outlives_change : ¬ ∀ (p : Platform) (st : Store) (actions : List Action),
    Current (run p (start st) actions) := by
  intro h
  let p : Platform := { ascii with compare := fun stored password => stored == "$2a$12$" ++ password }
  have hcurrent := h p viewerStore [.read 0 ⟨"viewer", "first-password"⟩, .check 0,
    .change ⟨"viewer", "second-password"⟩ "$2a$12$second-password",
    .insert 0 "session" "csrf" 1700000041000]
  exact absurd hcurrent (by decide +kernel)

end CardScope.Access
