import CardScope.Access.Handling
import CardScope.Isolation.Independence
import CardScope.Library.Standing

/-! # Sessions and the responses of the hub

What the hub answered tells who has a session: a login that was answered with a cookie opens one, a
logout, a password change and a cleanup end some. Requests of any kind come in any order, on any
clock.
-/

namespace CardScope.Access
open Library Model Hub Hub.Api

/-- What a response tells about sessions and passwords, or that there was a cleanup. -/
inductive Entry where
  | opened (cookie : String) (u : User) (now : ℤ)
  | closed (cookie : String)
  | changed (username salted : String)
  | cleaned (now : ℤ)

def entryOf (p : Platform) (d : Draw) (r : Request) (response : Response) : Option Entry :=
  match response.body, response.cookie with
  | .user u, some cookie => some (.opened cookie.value u d.now)
  | .ok, some _ => some (.closed (r.cookie.getD ""))
  | .ok, none =>
    if route r = "/accounts/password" then do
      let b ← decode p.json.credentials r 4096
      let salted ← d.salted b.password
      return .changed b.username salted
    else none
  | _, _ => none

def opens (p : Platform) : Entry → Option SessionRow
  | .opened cookie u now => some (newSession (p.hash cookie) u.name u.csrf now)
  | _ => none

/-- What ends a session: a logout with its cookie, a new password for its user, and a cleanup after
it expired. -/
def ends (p : Platform) : Entry → SessionRow → Prop
  | .opened _ _ _, _ => False
  | .closed cookie, s => s.hash = p.hash cookie
  | .changed username _, s => s.username = username
  | .cleaned now, s => s.expires < now

def sessionLedger (p : Platform) : Ledger Entry SessionRow where
  opens := opens p
  ends := ends p

def newPassword (username password : String) : Entry → String
  | .changed u salted => if u = username then salted else password
  | _ => password

/-- The account of a user: the first password or the last one that the log tells of. -/
def accountOf (a v : String) (log : List Entry) (username : String) : Option AccountRow :=
  if username = "admin" then some ⟨"admin", log.foldl (newPassword "admin") a, "admin"⟩
  else if username = "viewer" then some ⟨"viewer", log.foldl (newPassword "viewer") v, "viewer"⟩
  else none

/-- A request to the hub, or the hourly cleanup. -/
inductive Occurrence where
  | request (d : Draw) (r : Request)
  | cleanup (now : ℤ)

def happen (p : Platform) (h : HubState) : Occurrence → HubState
  | .request d r => (api p d h r).2
  | .cleanup now => { h with db := prune now h.db }

def told (p : Platform) (h : HubState) : Occurrence → Option Entry
  | .request d r => entryOf p d r (api p d h r).1
  | .cleanup now => some (.cleaned now)

/-- The hub after a run, with the log of what it told. -/
def watched (p : Platform) (h : HubState) (occurrences : List Occurrence) :
    HubState × List Entry :=
  occurrences.foldl (logged (happen p) (told p)) (h, [])

/-- What a request does to accounts and sessions, beside the entry for its response. -/
inductive Effect (p : Platform) (d : Draw) (r : Request) (st : Store) : Option Entry → Store → Prop
  | other {st' : Store} (accounts : st'.accounts = st.accounts)
      (sessions : st'.sessions = st.sessions) : Effect p d r st none st'
  | opened (password : String) (account : AccountRow)
      (decoded : decode p.json.credentials r 4096 = some ⟨account.username, password⟩)
      (found : readAccount st account.username = some account)
      (right : p.compare account.password password = true) {st' : Store}
      (inserted : insertSession st
        (newSession (p.hash d.first.text) account.username d.second.text d.now) = some st') :
      Effect p d r st
        (some (.opened d.first.text ⟨account.username, account.role, d.second.text⟩ d.now)) st'
  | closed : Effect p d r st (some (.closed (r.cookie.getD "")))
      (Hub.logout st (p.hash (r.cookie.getD "")))
  | changed (username salted : String) :
      Effect p d r st (some (.changed username salted)) (Hub.changePassword st username salted)

section Effects

variable {p : Platform} {d : Draw} {h : HubState} {r : Request}

theorem entryOf_page {status : ℕ} {body : Body} (hpage : isPage body = true) :
    entryOf p d r (respond status body) = none := by
  cases body <;> simp_all [entryOf, respond, isPage]

theorem entryOf_elsewhere (hroute : route r ≠ "/accounts/password") (status : ℕ) (body : Body) :
    entryOf p d r (respond status body) = none := by
  cases body <;> simp [entryOf, respond, hroute]

theorem entryOf_stats (exported : Bool) : entryOf p d r (stats p d h r exported) = none := by
  unfold stats
  simp only
  split_ifs <;> rfl

theorem effect_serve (st : Store) (q : NodeRequest) :
    Effect p d r st none (serve p st (d, q)) := by
  rcases serve_cases (p := p) (d := d) st q with ⟨s, hs⟩ | ⟨nodes, hs, -⟩
  · rw [hs]
    obtain ⟨haccounts, hsessions⟩ := (Isolation.ingested_administration d.now st s).2
    exact .other haccounts hsessions
  · rw [hs]
    exact .other rfl rfl

/-- A request has the effect on accounts and sessions that its response tells. -/
theorem Handled.effect {x : Response × HubState} (hx : Handled p d h r x) :
    Effect p d r h.db (entryOf p d r x.1) x.2.db := by
  cases hx with
  | refused below kept => exact .other (by rw [kept]) (by rw [kept])
  | page page =>
    rw [entryOf_page page]
    exact .other rfl rfl
  | file get path known =>
    rw [entryOf_stats]
    exact .other rfl rfl
  | sessionTaken path taken kept => exact .other (by rw [kept]) (by rw [kept])
  | nodeTaken path taken => exact .other rfl rfl
  | unsalted path decoded failed => exact .other rfl rfl
  | lost path registered failed internal kept => exact .other (by rw [kept]) (by rw [kept])
  | opened decoded found right inserted => exact .opened _ _ decoded found right inserted
  | closed => exact .closed
  | copied v => exact .other rfl rfl
  | changed path decoded salt =>
    rename_i b salted
    have hentry : entryOf p d r (respond 200 .ok) = some (.changed b.username salted) := by
      simp [entryOf, respond, path, decoded, salt]
    rw [hentry]
    exact .changed b.username salted
  | served q ok plain elsewhere done =>
    rw [entryOf_elsewhere elsewhere, done]
    exact effect_serve h.db q

theorem api_tells (p : Platform) (d : Draw) (h : HubState) (r : Request) :
    Effect p d r h.db (entryOf p d r (api p d h r).1) (api p d h r).2.db :=
  (api_handled p d h r).effect

end Effects

section Steps

variable {p : Platform} {d : Draw} {r : Request} {st st' : Store} {e : Option Entry}

theorem Effect.explains (he : Effect p d r st e st') :
    (sessionLedger p).Explains (· ∈ st.sessions) (· ∈ st'.sessions) e := by
  cases he with
  | other accounts sessions =>
    intro s
    rw [sessions]
  | opened password account decoded found right inserted =>
    intro s
    obtain ⟨hfree, rfl⟩ := insertSession_ok inserted
    simp [sessionLedger, opens, ends, eq_comm]
  | closed =>
    intro s
    simp [sessionLedger, opens, ends, Hub.logout]
  | changed username salted =>
    intro s
    simp [sessionLedger, opens, ends, Hub.changePassword]

theorem explains_cleanup (now : ℤ) :
    (sessionLedger p).Explains (· ∈ st.sessions) (· ∈ (prune now st).sessions)
      (some (.cleaned now)) := by
  intro s
  simp [sessionLedger, opens, ends, prune]

theorem accountOf_snoc {a v : String} {log : List Entry} {e : Entry}
    (he : ∀ username password, newPassword username password e = password) (username : String) :
    accountOf a v (log ++ [e]) username = accountOf a v log username := by
  simp [accountOf, he]

theorem Effect.account {a v : String} {log : List Entry} (he : Effect p d r st e st')
    (h : ∀ username, readAccount st username = accountOf a v log username) (username : String) :
    readAccount st' username = accountOf a v (log ++ e.toList) username := by
  cases he with
  | other accounts sessions => simpa [readAccount, accounts] using h username
  | opened password account decoded found right inserted =>
    obtain ⟨hfree, rfl⟩ := insertSession_ok inserted
    rw [Option.toList_some, accountOf_snoc (fun _ _ => rfl)]
    exact h username
  | closed =>
    rw [Option.toList_some, accountOf_snoc (fun _ _ => rfl)]
    exact h username
  | changed u salted =>
    have hread : readAccount (Hub.changePassword st u salted) username =
        (accountOf a v log username).map
          (fun a => if u = username then { a with password := salted } else a) := by
      rw [← h username]
      exact Table.find?_modify st.accounts u (fun a => { a with password := salted }) (fun _ => rfl)
        username
    rw [hread]
    by_cases hadmin : username = "admin"
    · subst hadmin
      by_cases hu : u = "admin" <;> simp [accountOf, newPassword, hu]
    · by_cases hviewer : username = "viewer"
      · subst hviewer
        by_cases hu : u = "viewer" <;> simp [accountOf, newPassword, hu]
      · simp [accountOf, hadmin, hviewer]

theorem accountOf_eq_some {a v : String} {log : List Entry} {username : String}
    {account : AccountRow} (h : accountOf a v log username = some account) :
    (username = "admin" ∨ username = "viewer") ∧ account.username = username ∧
      account.role = username := by
  unfold accountOf at h
  split_ifs at h with hadmin hviewer
  · cases h
    exact ⟨.inl hadmin, hadmin.symm, hadmin.symm⟩
  · cases h
    exact ⟨.inr hviewer, hviewer.symm, hviewer.symm⟩

end Steps

/-- The accounts of the hub are those of its log, and the log tells of no other user. -/
structure Known (a v : String) (x : HubState × List Entry) : Prop where
  account : ∀ username, readAccount x.1.db username = accountOf a v x.2 username
  names : ∀ cookie u now, .opened cookie u now ∈ x.2 → u.name = "admin" ∨ u.name = "viewer"

section Runs

variable {p : Platform} {a v : String} {x : HubState × List Entry}

theorem Known.step (hx : Known a v x) (o : Occurrence) :
    Known a v (logged (happen p) (told p) x o) := by
  cases o with
  | request d r =>
    have heffect := api_tells p d x.1 r
    constructor
    · exact heffect.account hx.account
    · intro cookie u now hmem
      rcases List.mem_append.mp hmem with hmem | hmem
      · exact hx.names cookie u now hmem
      · have hentry : entryOf p d r (api p d x.1 r).1 = some (.opened cookie u now) :=
          Option.mem_toList.mp hmem
        rw [hentry] at heffect
        cases heffect with
        | opened password account decoded found right inserted =>
          rw [hx.account] at found
          exact (accountOf_eq_some found).1
  | cleanup now =>
    constructor
    · intro username
      have hsnoc : accountOf a v (x.2 ++ [.cleaned now]) username = accountOf a v x.2 username :=
        accountOf_snoc (fun _ _ => rfl) username
      exact (hx.account username).trans hsnoc.symm
    · intro cookie u t hmem
      rcases List.mem_append.mp hmem with hmem | hmem
      · exact hx.names cookie u t hmem
      · simp [told] at hmem

theorem known_watched (p : Platform) {h : HubState} (hx : Known a v (h, []))
    (occurrences : List Occurrence) : Known a v (watched p h occurrences) :=
  foldl_invariant _ (fun _ x => Known a v x) (fun o _ _ hx => hx.step o) occurrences _ hx

/-- The sessions are those that stand in the log. -/
theorem sessions_watched (p : Platform) {h : HubState} (hnone : h.db.sessions = Table.empty)
    (occurrences : List Occurrence) (s : SessionRow) :
    s ∈ (watched p h occurrences).1.db.sessions ↔
      (sessionLedger p).Standing (watched p h occurrences).2 s := by
  have hstep : ∀ h o, (sessionLedger p).Explains (fun s => s ∈ h.db.sessions)
      (fun s => s ∈ (happen p h o).db.sessions) (told p h o) := by
    intro h o
    cases o with
    | request d r =>
      have heffect : Effect p d r h.db (told p h (.request d r)) (happen p h (.request d r)).db :=
        api_tells p d h r
      exact heffect.explains
    | cleanup now => exact explains_cleanup now
  have hempty : ∀ s, s ∈ h.db.sessions ↔ (sessionLedger p).Standing [] s := by
    intro s
    simp [hnone]
  exact holds_iff_standing (fun (h : HubState) s => s ∈ h.db.sessions) hstep occurrences hempty s

theorem exists_account (hx : Known a v x) {s : SessionRow}
    (hs : (sessionLedger p).Standing x.2 s) :
    ∃ account, accountOf a v x.2 s.username = some account := by
  obtain ⟨before, e, after, hlog, hopens, -⟩ := hs
  cases e with
  | opened cookie u now =>
    cases hopens
    rcases hx.names cookie u now (by simp [hlog]) with hname | hname <;>
      simp [accountOf, newSession, hname]
  | closed | changed | cleaned => cases hopens

end Runs

theorem known_insertAccounts {st st' : Store} {a v : String} (hnone : st.accounts = Table.empty)
    (hinsert : insertAccounts st a v = some st') (rates : Rates) :
    Known a v (⟨st', rates⟩, []) ∧ st'.sessions = st.sessions := by
  obtain ⟨st₁, hfirst, hsecond⟩ := Option.bind_eq_some_iff.mp hinsert
  unfold insertAccount at hfirst hsecond
  split_ifs at hfirst hsecond
  cases hfirst
  cases hsecond
  refine ⟨⟨fun username => ?_, fun _ _ _ hmem => by cases hmem⟩, rfl⟩
  simp only [readAccount, Table.find?_insert, hnone, Table.find?_empty, accountOf, List.foldl_nil]
  by_cases hadmin : username = "admin"
  · subst hadmin
    simp
  · by_cases hviewer : username = "viewer"
    · subst hviewer
      simp
    · simp [hadmin, hviewer, eq_comm]

theorem known_initialize {salt salt' : String → Option String} {st st' : Store}
    {admin viewer : String} (hnone : st.accounts = Table.empty)
    (hinit : initializeAccounts salt salt' st admin viewer = .ok st') (rates : Rates) :
    ∃ a v, salt admin = some a ∧ salt' viewer = some v ∧ Known a v (⟨st', rates⟩, []) ∧
      st'.sessions = st.sessions := by
  unfold initializeAccounts at hinit
  split_ifs at hinit
  cases ha : salt admin with
  | none => simp [ha] at hinit
  | some a =>
    cases hv : salt' viewer with
    | none => simp [ha, hv] at hinit
    | some v =>
      cases hinsert : insertAccounts st a v with
      | none => simp [ha, hv, hinsert] at hinit
      | some st₁ =>
        simp only [ha, hv, hinsert] at hinit
        cases hinit
        exact ⟨a, v, rfl, rfl, known_insertAccounts hnone hinsert rates⟩

/-- At the end of any run of a new hub its responses tell who has a session, what the passwords are
and who can open a session next. -/
theorem access_as_told (p : Platform) {salt salt' : String → Option String} {st st' : Store}
    {admin viewer : String} (hnone : st.accounts = Table.empty)
    (hsessions : st.sessions = Table.empty)
    (hinit : initializeAccounts salt salt' st admin viewer = .ok st') (rates : Rates)
    (occurrences : List Occurrence) :
    ∃ a v, salt admin = some a ∧ salt' viewer = some v ∧
      (∀ now cookie u, session p now (watched p ⟨st', rates⟩ occurrences).1.db cookie = some u ↔
        ∃ value s, cookie = some value ∧
          (sessionLedger p).Standing (watched p ⟨st', rates⟩ occurrences).2 s ∧
          s.hash = p.hash value ∧ now < s.expires ∧ u = ⟨s.username, s.username, s.csrf⟩) ∧
      (∀ username, readAccount (watched p ⟨st', rates⟩ occurrences).1.db username =
        accountOf a v (watched p ⟨st', rates⟩ occurrences).2 username) ∧
      ∀ d r cookie u now,
        entryOf p d r (api p d (watched p ⟨st', rates⟩ occurrences).1 r).1 =
          some (.opened cookie u now) →
        ∃ password account, decode p.json.credentials r 4096 = some ⟨u.name, password⟩ ∧
          accountOf a v (watched p ⟨st', rates⟩ occurrences).2 u.name = some account ∧
          p.compare account.password password = true ∧ u.role = account.role := by
  obtain ⟨a, v, ha, hv, hknown, hsame⟩ := known_initialize hnone hinit rates
  have hrun := known_watched p hknown occurrences
  have hheld := sessions_watched p (h := ⟨st', rates⟩) (hsame.trans hsessions) occurrences
  generalize watched p ⟨st', rates⟩ occurrences = x at hrun hheld
  refine ⟨a, v, ha, hv, fun now cookie u => ?_, hrun.account, fun d r cookie u now hentry => ?_⟩
  · rw [session_iff]
    constructor
    · rintro ⟨value, s, account, rfl, hs, hhash, hlive, hfound, rfl⟩
      rw [hrun.account] at hfound
      obtain ⟨-, hname, hrole⟩ := accountOf_eq_some hfound
      exact ⟨value, s, rfl, (hheld s).mp hs, hhash, hlive, by rw [hname, hrole]⟩
    · rintro ⟨value, s, rfl, hs, hhash, hlive, rfl⟩
      obtain ⟨account, hfound⟩ := exists_account hrun hs
      obtain ⟨-, hname, hrole⟩ := accountOf_eq_some hfound
      rw [← hrun.account] at hfound
      exact ⟨value, s, account, rfl, (hheld s).mpr hs, hhash, hlive, hfound, by rw [hname, hrole]⟩
  · have heffect := api_tells p d x.1 r
    rw [hentry] at heffect
    cases heffect with
    | opened password account decoded found right inserted =>
      rw [hrun.account] at found
      exact ⟨password, account, decoded, found, right, rfl⟩

/-- A platform that reads a body as the password of the administrator. -/
def trusting : Platform :=
  { ascii with
    json := { ascii.json with credentials := fun body => some ⟨"admin", body⟩ } }

/-- A login, and a cleanup one day later. -/
def dayOfLogin : List Occurrence :=
  [.request ⟨1700000000000, .replicate '8', .replicate '9', some⟩
    { method := "POST"
      path := "/api/v1/login"
      contentType := "application/json"
      body := "administer" },
    .cleanup 1700086400000]

theorem access_as_told_day : ∃ st',
    initializeAccounts some some (freshStore Table.empty) "administer" "only-looks" = .ok st' ∧
    ∃ a v, some "administer" = some a ∧ some "only-looks" = some v ∧
      (∀ now cookie u,
        session trusting now (watched trusting ⟨st', Table.empty⟩ dayOfLogin).1.db cookie = some u ↔
          ∃ value s, cookie = some value ∧
            (sessionLedger trusting).Standing (watched trusting ⟨st', Table.empty⟩ dayOfLogin).2 s ∧
            s.hash = trusting.hash value ∧ now < s.expires ∧
            u = ⟨s.username, s.username, s.csrf⟩) ∧
      ∀ username, readAccount (watched trusting ⟨st', Table.empty⟩ dayOfLogin).1.db username =
        accountOf a v (watched trusting ⟨st', Table.empty⟩ dayOfLogin).2 username := by
  have hsome : (insertAccounts (freshStore Table.empty) "administer" "only-looks").isSome := by
    decide
  obtain ⟨st', hinsert⟩ := Option.isSome_iff_exists.mp hsome
  have hinit : initializeAccounts some some (freshStore Table.empty) "administer" "only-looks" =
      .ok st' := by
    have hlen : len "administer" = 10 ∧ len "only-looks" = 10 := by decide
    have hnew : initialized (freshStore Table.empty) = false := rfl
    simp [initializeAccounts, hlen, hinsert, hnew]
  obtain ⟨a, v, ha, hv, hsessions, haccount, -⟩ :=
    access_as_told trusting rfl rfl hinit Table.empty dayOfLogin
  exact ⟨st', hinit, a, v, ha, hv, hsessions, haccount⟩

end CardScope.Access
