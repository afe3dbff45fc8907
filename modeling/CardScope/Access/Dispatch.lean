import CardScope.Access.Credentials
import CardScope.Hub.Api

/-! # Who may change what

The dispatcher of the API against its purpose: reading changes nothing, changes need the session of
an administrator, and the credential of a node is good for uploads only.
-/

namespace CardScope.Access
open Library Model Hub Hub.Api

variable {p : Platform} {d : Draw} {h : HubState} {r : Request}

/-- The part of the path that the dispatcher looks at. -/
def route (r : Request) : String := trimPrefix r.path "/api/v1"

/-- The requests that are served without a session. -/
def Sessionless (r : Request) : Prop :=
  r.method = "POST" ∧ (route r = "/login" ∨ route r = "/enroll" ∨ route r = "/snapshots")

/-- The body is data for a page: no error, no bare confirmation and no file. -/
def isPage : Body → Bool
  | .error _ | .ok | .csv _ _ => false
  | _ => true

/-- Where the dispatcher sends a request, and what it has tested by then. -/
inductive Dispatched (p : Platform) (d : Draw) (h : HubState) (r : Request) :
    Response × HubState → Prop
  | refused {status : ℕ} {message : String} (below : status < 500) :
      Dispatched p d h r (fail status message, h)
  | page {body : Body} (page : isPage body = true) : Dispatched p d h r (respond 200 body, h)
  | file {u : User} (get : r.method = "GET") (path : route r = "/export")
      (known : session p d.now h.db r.cookie = some u) :
      Dispatched p d h r (stats p d h r true, h)
  | loginCopy (get : r.method = "GET") : Dispatched p d h r (loginCopy p h r)
  | login (path : route r = "/login") (post : r.method = "POST") :
      Dispatched p d h r (login p d h r)
  | enroll (path : route r = "/enroll") (post : r.method = "POST") :
      Dispatched p d h r (Api.enroll p d h r)
  | snapshots (path : route r = "/snapshots") (post : r.method = "POST") :
      Dispatched p d h r (snapshots p d h r)
  | logout {u : User} (path : route r = "/logout") (post : r.method = "POST")
      (known : session p d.now h.db r.cookie = some u) (csrf : r.csrf = u.csrf)
      (origin : sameOrigin p r = true) : Dispatched p d h r
        ({ status := 200, body := .ok, cookie := some { value := "", maxAge := -1 } },
          { h with db := logout h.db (p.hash (r.cookie.getD "")) })
  | administer {u : User} (known : session p d.now h.db r.cookie = some u)
      (admin : u.role = "admin")
      (guarded : r.method ≠ "GET" → r.csrf = u.csrf ∧ sameOrigin p r = true) :
      Dispatched p d h r (administer p d h r (route r))

theorem stats_page : ∃ body, stats p d h r false = respond 200 body ∧ isPage body = true := by
  unfold stats
  simp only [Bool.false_eq_true, if_false]
  split
  · exact ⟨_, rfl, rfl⟩
  · exact ⟨_, rfl, rfl⟩

theorem pages_dispatched {u : User} (hu : session p d.now h.db r.cookie = some u)
    (horigin : r.method ≠ "GET" → sameOrigin p r = true) :
    Dispatched p d h r (pages p d h r (route r) u) := by
  unfold pages
  split_ifs with hcsrf hme hlogout hnodes hhistory hcluster hstats hexport hevents hadmin
  · exact .refused (by decide)
  · exact .page rfl
  · have hpost : r.method ≠ "GET" := by rw [hlogout.2]; decide
    exact .logout hlogout.1 hlogout.2 hu (not_not.mp (fun hc => hcsrf ⟨hpost, hc⟩)) (horigin hpost)
  · exact .page rfl
  · exact .page rfl
  · exact .page rfl
  · obtain ⟨body, hbody, hpage⟩ : ∃ body, stats p d h r false = respond 200 body ∧
        isPage body = true := stats_page
    rw [hbody]
    exact .page hpage
  · exact .file hexport.2 hexport.1 hu
  · exact .page rfl
  · exact .refused (by decide)
  · exact .administer hu (not_not.mp hadmin)
      (fun hm => ⟨not_not.mp (fun hc => hcsrf ⟨hm, hc⟩), horigin hm⟩)

/-- Every request is refused, answered with data, or passed to a handler that may change the hub. -/
theorem api_dispatched (p : Platform) (d : Draw) (h : HubState) (r : Request) :
    Dispatched p d h r (api p d h r) := by
  have hroute : trimPrefix r.path "/api/v1" = route r := rfl
  unfold api
  simp only [hroute]
  split_ifs with hcopy horigin hlogin henroll hsnapshots
  · exact .loginCopy hcopy.2
  · exact .refused (by decide)
  · exact .login hlogin.1 hlogin.2
  · exact .enroll henroll.1 henroll.2
  · exact .snapshots hsnapshots.1 hsnapshots.2
  · cases hu : session p d.now h.db r.cookie with
    | none => exact .refused (by decide)
    | some u => exact pages_dispatched hu (fun hm => by simpa [hm] using horigin)

/-! ## Guards -/

theorem countRequest_db (key : String) (limit : ℕ) : (countRequest d h key limit).2.db = h.db := rfl

theorem loginCopy_get (hm : r.method = "GET") : (loginCopy p h r).2 = h := by
  unfold loginCopy
  rw [if_pos hm]

theorem updateNode_unchanged (path : String) (hpost : r.method ≠ "POST")
    (hpatch : r.method ≠ "PATCH") : (updateNode p d h r path).2 = h := by
  unfold updateNode
  simp only [hpost, hpatch, and_false, if_false]
  split <;> rfl

theorem administer_get (path : String) (hm : r.method = "GET") :
    (administer p d h r path).2 = h := by
  have hpost : r.method ≠ "POST" := by rw [hm]; decide
  have hput : r.method ≠ "PUT" := by rw [hm]; decide
  have hpatch : r.method ≠ "PATCH" := by rw [hm]; decide
  unfold administer
  rw [if_neg (fun hc => hput hc.2), if_neg (fun hc => hpost hc.2)]
  split_ifs with hnode hpassword
  · exact updateNode_unchanged path hpost hpatch
  · exact absurd hpassword.2 hpost
  · rfl

/-- A request that reads leaves the hub as it is, whatever its path. -/
theorem api_get (hm : r.method = "GET") : (api p d h r).2 = h := by
  have hpost : r.method ≠ "POST" := by rw [hm]; decide
  have hcases := api_dispatched p d h r
  generalize api p d h r = x at hcases ⊢
  cases hcases with
  | refused below => rfl
  | page page => rfl
  | file get path known => rfl
  | loginCopy get => exact loginCopy_get hm
  | login path post => exact absurd post hpost
  | enroll path post => exact absurd post hpost
  | snapshots path post => exact absurd post hpost
  | logout path post known csrf origin => exact absurd post hpost
  | administer known admin guarded => exact administer_get _ hm

theorem sameOrigin_iff : sameOrigin p r = true ↔ r.origin = "" ∨ ∃ scheme,
    p.parseURL r.origin = some (scheme, r.host) ∧ (scheme = "http" ∨ scheme = "https") := by
  unfold sameOrigin
  cases hu : p.parseURL r.origin with
  | none => simp
  | some u =>
    obtain ⟨scheme, host⟩ := u
    simp only [Option.any_some, Bool.or_eq_true, Bool.and_eq_true, beq_iff_eq, Option.some.injEq,
      Prod.mk.injEq]
    constructor
    · rintro (he | ⟨rfl, hscheme⟩)
      · exact .inl he
      · exact .inr ⟨scheme, ⟨rfl, rfl⟩, hscheme⟩
    · rintro (he | ⟨scheme', ⟨rfl, rfl⟩, hscheme⟩)
      · exact .inl he
      · exact .inr ⟨rfl, hscheme⟩

/-- The user of a cookie, in terms of the stored session and its account. -/
theorem session_iff {now : ℤ} {st : Store} {cookie : Option String} {u : User} :
    session p now st cookie = some u ↔ ∃ value s account, cookie = some value ∧ s ∈ st.sessions ∧
      s.hash = p.hash value ∧ now < s.expires ∧ readAccount st s.username = some account ∧
      u = ⟨account.username, account.role, s.csrf⟩ := by
  constructor
  · intro hu
    obtain ⟨value, rfl, hvalue⟩ := Option.bind_eq_some_iff.mp hu
    obtain ⟨s, hs, hlive⟩ := Option.bind_eq_some_iff.mp hvalue
    split_ifs at hlive with hexpires
    obtain ⟨account, ha, huser⟩ := Option.bind_eq_some_iff.mp hlive
    obtain ⟨hs, hhash⟩ := Table.find?_eq_some.mp hs
    cases huser
    exact ⟨value, s, account, rfl, hs, hhash, hexpires, ha, rfl⟩
  · rintro ⟨value, s, account, rfl, hs, hhash, hlive, haccount, rfl⟩
    have hfind : st.sessions.find? (p.hash value) = some s := Table.find?_eq_some.mpr ⟨hs, hhash⟩
    unfold readAccount at haccount
    simp [session, hfind, hlive, haccount]

theorem api_changes (hm : r.method ≠ "GET") (hs : ¬ Sessionless r)
    (hdb : (api p d h r).2.db ≠ h.db) : sameOrigin p r = true ∧
      ∃ u, session p d.now h.db r.cookie = some u ∧ r.csrf = u.csrf ∧ (u.role = "admin" ∨
        route r = "/logout" ∧ r.method = "POST" ∧
          (api p d h r).2.db = logout h.db (p.hash (r.cookie.getD ""))) := by
  have hcases := api_dispatched p d h r
  generalize api p d h r = x at hcases hdb ⊢
  cases hcases with
  | refused below => exact absurd rfl hdb
  | page page => exact absurd rfl hdb
  | file get path known => exact absurd get hm
  | loginCopy get => exact absurd get hm
  | login path post => exact absurd ⟨post, .inl path⟩ hs
  | enroll path post => exact absurd ⟨post, .inr (.inl path)⟩ hs
  | snapshots path post => exact absurd ⟨post, .inr (.inr path)⟩ hs
  | logout path post known csrf origin =>
    exact ⟨origin, _, known, csrf, .inr ⟨path, post, rfl⟩⟩
  | administer known admin guarded =>
    exact ⟨(guarded hm).2, _, known, (guarded hm).1, .inl admin⟩

theorem api_authorization (auth : String) (hup : ¬ (route r = "/snapshots" ∧ r.method = "POST")) :
    api p d h { r with authorization := auth } = api p d h r := by
  have hroute : ¬ (trimPrefix r.path "/api/v1" = "/snapshots" ∧ r.method = "POST") := hup
  unfold api
  simp only
  rw [if_neg hroute, if_neg hroute]
  rfl

/-- A GET changes nothing; any other change needs the session of an administrator, a logout only its
own; and the credential of a node is good for uploads only. -/
theorem api_guarded (p : Platform) (d : Draw) (h : HubState) (r : Request) :
    (r.method = "GET" → (api p d h r).2.db = h.db) ∧
    (r.method ≠ "GET" → ¬ Sessionless r → (api p d h r).2.db ≠ h.db →
      (r.origin = "" ∨ ∃ scheme, p.parseURL r.origin = some (scheme, r.host) ∧
        (scheme = "http" ∨ scheme = "https")) ∧
      ∃ value s a, r.cookie = some value ∧ s ∈ h.db.sessions ∧ s.hash = p.hash value ∧
        d.now < s.expires ∧ r.csrf = s.csrf ∧ a ∈ h.db.accounts ∧ a.username = s.username ∧
        (a.role = "admin" ∨ route r = "/logout" ∧ r.method = "POST" ∧ (api p d h r).2.db =
          { h.db with sessions := h.db.sessions.keep (fun other => other.hash ≠ s.hash) })) ∧
    ∀ auth, ¬ (route r = "/snapshots" ∧ r.method = "POST") →
      api p d h { r with authorization := auth } = api p d h r := by
  refine ⟨fun hm => by rw [api_get hm], fun hm hs hdb => ?_, fun auth => api_authorization auth⟩
  obtain ⟨horigin, u, hu, hcsrf, hrole⟩ := api_changes hm hs hdb
  obtain ⟨value, s, a, hvalue, hsession, hhash, hlive, hread, rfl⟩ := session_iff.mp hu
  obtain ⟨ha, hname⟩ := Table.find?_eq_some.mp hread
  refine ⟨sameOrigin_iff.mp horigin, value, s, a, hvalue, hsession, hhash, hlive, hcsrf, ha, hname,
    ?_⟩
  rcases hrole with hrole | ⟨hroute, hpost, hlogout⟩
  · exact .inl hrole
  · refine .inr ⟨hroute, hpost, hlogout.trans ?_⟩
    rw [hvalue, Option.getD_some, ← hhash]
    rfl

end CardScope.Access
