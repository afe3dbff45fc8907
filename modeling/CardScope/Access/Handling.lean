import CardScope.Access.Dispatch
import CardScope.Live.Metrics

/-! # What a request does

Every response of the API, with what led to it and what it leaves in the tables. Sessions, passwords,
failures and measurements are all told from this one list.
-/

namespace CardScope.Access
open Library Model Hub Hub.Api

/-- A response to a request, with the state that it leaves. -/
inductive Handled (p : Platform) (d : Draw) (h : HubState) (r : Request) :
    Response × HubState → Prop
  | refused {status : ℕ} {message : String} {after : HubState} (below : status < 500)
      (kept : after.db = h.db) : Handled p d h r (fail status message, after)
  | page {body : Body} (page : isPage body = true) : Handled p d h r (respond 200 body, h)
  | file {u : User} (get : r.method = "GET") (path : route r = "/export")
      (known : session p d.now h.db r.cookie = some u) : Handled p d h r (stats p d h r true, h)
  | sessionTaken {after : HubState} (path : route r = "/login")
      (taken : h.db.sessions.HasKey (p.hash d.first.text)) (kept : after.db = h.db) :
      Handled p d h r (fail 500 "会话创建失败", after)
  | nodeTaken (path : route r = "/nodes") (taken : h.db.nodes.HasKey (nodeIDOf d.first)) :
      Handled p d h r (fail 500 "创建失败", h)
  | unsalted {b : Credentials} (path : route r = "/accounts/password")
      (decoded : decode p.json.credentials r 4096 = some b)
      (failed : d.salted b.password = none) : Handled p d h r (fail 500 "更新失败", h)
  | lost {s : Snapshot} {e : IngestError} {after : HubState} (path : route r = "/snapshots")
      (registered : h.db.nodes.HasKey s.nodeID) (failed : ingest d.now h.db s = .error e)
      (internal : ∀ message, e ≠ .invalid message) (kept : after.db = h.db) :
      Handled p d h r (fail 500 "快照保存失败", after)
  | opened {password : String} {account : AccountRow} {after : HubState}
      (decoded : decode p.json.credentials r 4096 = some ⟨account.username, password⟩)
      (found : readAccount h.db account.username = some account)
      (right : p.compare account.password password = true)
      (inserted : insertSession h.db
        (newSession (p.hash d.first.text) account.username d.second.text d.now) = some after.db) :
      Handled p d h r
        ({ status := 200
           body := .user ⟨account.username, account.role, d.second.text⟩
           cookie := some { value := d.first.text, maxAge := 43200, secure := r.tls } }, after)
  | closed : Handled p d h r
      ({ status := 200, body := .ok, cookie := some { value := "", maxAge := -1 } },
        { h with db := Hub.logout h.db (p.hash (r.cookie.getD "")) })
  | copied (v : LoginCopy) : Handled p d h r (respond 200 (.loginCopy v),
      { h with db := { h.db with settings := h.db.settings.put ⟨"login_copy", v⟩ } })
  | changed {b : Credentials} {salted : String} (path : route r = "/accounts/password")
      (decoded : decode p.json.credentials r 4096 = some b)
      (salt : d.salted b.password = some salted) : Handled p d h r (respond 200 .ok,
        { h with db := Hub.changePassword h.db b.username salted })
  | served (q : NodeRequest) {status : ℕ} {body : Body} {after : HubState} (ok : status < 300)
      (plain : isPage body = true ∨ body = .ok) (elsewhere : route r ≠ "/accounts/password")
      (done : after.db = serve p h.db (d, q)) : Handled p d h r (respond status body, after)

section Handlers

variable {p : Platform} {d : Draw} {h : HubState} {r : Request}

/-! ## Operations on nodes -/

theorem nodeFailure_handled {e : NodeError} (he : e ≠ .constraint) (fallback : String) :
    Handled p d h r (nodeFailure e fallback, h) := by
  cases e with
  | input message => exact .refused (by decide) rfl
  | notFound => exact .refused (by decide) rfl
  | constraint => exact absurd rfl he

theorem updateRow_error {st : Store} {id : String} {f : NodeRow → NodeRow}
    {hf : ∀ n, (f n).id = n.id} {e : NodeError} (h : updateRow st id f hf = .error e) :
    e ≠ .constraint := by
  unfold updateRow at h
  split_ifs at h
  cases h
  simp

theorem requireNode_error {st : Store} {id : String} {e : NodeError}
    (h : requireNode st id = .error e) : e ≠ .constraint := by
  unfold requireNode at h
  split_ifs at h
  cases h
  simp

theorem issueCode_error {st : Store} {id : String} {e : NodeError}
    (h : issueCode p d st id = .error e) : e ≠ .constraint := by
  unfold issueCode at h
  cases hu : updateRow st id (NodeRow.issued (p.hash d.first.text) (codeExpiry d.now))
      (fun _ => rfl) with
  | error e' =>
    simp only [hu, bind, Except.bind] at h
    cases h
    exact updateRow_error hu
  | ok st' =>
    simp only [hu, bind, Except.bind, pure, Except.pure] at h
    cases h

theorem cleanTags_error {tags kept : List String} {e : NodeError}
    (h : cleanTags tags kept = .error e) : e ≠ .constraint := by
  induction tags generalizing kept with
  | nil => cases h
  | cons tag rest ih =>
    rw [cleanTags] at h
    split at h
    · cases h
      simp
    · exact ih h

theorem configure_error {st : Store} {id : String} {settings : NodeSettings} {e : NodeError}
    (h : configure p st id settings = .error e) : e ≠ .constraint := by
  simp only [configure] at h
  split_ifs at h
  · cases h
    simp
  · cases h
    simp
  · cases h
    simp
  · cases h
    simp
  · cases ht : cleanTags (settings.tags.getD []) [] with
    | error e' =>
      simp only [ht, bind, Except.bind] at h
      cases h
      exact cleanTags_error ht
    | ok tags =>
      simp only [ht, bind, Except.bind] at h
      exact updateRow_error h

theorem create_constraint {st : Store} {name : String}
    (h : create p d st name = .error .constraint) : st.nodes.HasKey (nodeIDOf d.first) := by
  simp only [create] at h
  split_ifs at h with _ _ hkey
  · cases h
  · cases h
  · exact hkey

theorem createNode_handled (hroute : route r = "/nodes") :
    Handled p d h r (createNode p d h r) := by
  have helsewhere : route r ≠ "/accounts/password" := by rw [hroute]; decide
  unfold createNode
  cases decode p.json.name r 4096 with
  | none => exact .refused (by decide) rfl
  | some name =>
    simp only
    cases hcreate : create p d h.db name with
    | ok result =>
      exact .served (.create name) (by decide) (.inl rfl) helsewhere (by simp only [serve, hcreate])
    | error e =>
      by_cases he : e = .constraint
      · subst he
        exact .nodeTaken hroute (create_constraint hcreate)
      · exact nodeFailure_handled he _

theorem updateNode_handled (helsewhere : route r ≠ "/accounts/password") (path : String) :
    Handled p d h r (updateNode p d h r path) := by
  unfold updateNode
  simp only
  generalize (split (trimPrefix path "/nodes/")).headD "" = id
  cases hrequire : requireNode h.db id with
  | error e => exact nodeFailure_handled (requireNode_error hrequire) _
  | ok found =>
    simp only
    split_ifs
    · cases hrevoke : revoke h.db id with
      | error e => exact nodeFailure_handled (updateRow_error hrevoke) _
      | ok st' =>
        exact .served (.revoke id) (by decide) (.inr rfl) helsewhere (by simp only [serve, hrevoke])
    · cases hissue : issueCode p d h.db id with
      | error e => exact nodeFailure_handled (issueCode_error hissue) _
      | ok result =>
        exact .served (.issueCode id) (by decide) (.inl rfl) helsewhere (by simp only [serve, hissue])
    · exact .refused (by decide) rfl
    · cases decode p.json.settings r 8192 with
      | none => exact .refused (by decide) rfl
      | some settings =>
        simp only
        cases hconfigure : configure p h.db id settings with
        | error e => exact nodeFailure_handled (configure_error hconfigure) _
        | ok st' =>
          exact .served (.configure id settings) (by decide) (.inr rfl) helsewhere
            (by simp only [serve, hconfigure])
    · exact .refused (by decide) rfl

/-! ## The other handlers -/

theorem login_handled (hroute : route r = "/login") : Handled p d h r (login p d h r) := by
  unfold login
  simp only
  split_ifs
  · exact .refused (by decide) rfl
  · cases hb : decode p.json.credentials r 4096 with
    | none => exact .refused (by decide) rfl
    | some b =>
      simp only [countRequest_db]
      cases ha : checkPassword p (readAccount h.db b.username) b.password with
      | none => exact .refused (by decide) rfl
      | some account =>
        simp only
        obtain ⟨hfound, hright⟩ := Option.filter_eq_some_iff.mp ha
        have hname : account.username = b.username := (Table.find?_eq_some.mp hfound).2
        cases hs : insertSession h.db
          (newSession (p.hash d.first.text) b.username d.second.text d.now) with
        | none =>
          unfold insertSession at hs
          split_ifs at hs with htaken
          exact .sessionTaken hroute htaken rfl
        | some st' =>
          rw [← hname] at hfound hs ⊢
          exact .opened (by rw [hb, hname]) hfound hright hs

theorem enroll_handled (hroute : route r = "/enroll") :
    Handled p d h r (Api.enroll p d h r) := by
  have helsewhere : route r ≠ "/accounts/password" := by rw [hroute]; decide
  unfold Api.enroll
  simp only [countRequest_db]
  split_ifs
  · exact .refused (by decide) rfl
  · cases (decode p.json.code r 4096).filter (fun code => len code = 64) with
    | none => exact .refused (by decide) rfl
    | some code =>
      simp only
      cases henroll : Hub.enroll p d h.db code with
      | none => exact .refused (by decide) rfl
      | some result =>
        exact .served (.enroll code) (by decide) (.inl rfl) helsewhere
          (by simp only [serve, henroll])

theorem hasKey_authenticate {st : Store} {credential : String} {n : NodeRow}
    (h : authenticate p st credential = some n) : st.nodes.HasKey n.id := by
  unfold authenticate nodeOfToken at h
  split_ifs at h
  exact ⟨n, List.mem_of_find?_eq_some h, rfl⟩

theorem snapshots_handled (hroute : route r = "/snapshots") :
    Handled p d h r (snapshots p d h r) := by
  have helsewhere : route r ≠ "/accounts/password" := by rw [hroute]; decide
  unfold snapshots
  cases hn : authenticate p h.db (trimPrefix r.authorization "Bearer ") with
  | none => exact .refused (by decide) rfl
  | some n =>
    simp only [countRequest_db]
    split_ifs
    · exact .refused (by decide) rfl
    · cases hs : (decode p.json.snapshot r (4 * 2 ^ 20)).filter (fun s => s.nodeID = n.id) with
      | none => exact .refused (by decide) rfl
      | some s =>
        have hid : s.nodeID = n.id := by simpa using (Option.filter_eq_some_iff.mp hs).2
        simp only
        cases hingest : ingest d.now h.db s with
        | ok st' =>
          have hserve : serve p h.db (d, .snapshots (trimPrefix r.authorization "Bearer ") s) =
              ingested d.now h.db s := by
            simp only [serve, hn, if_pos hid]
          have hdone : st' = ingested d.now h.db s := by
            unfold ingested
            rw [hingest]
          exact .served _ (by decide) (.inr rfl) helsewhere (hdone.trans hserve.symm)
        | error e =>
          by_cases he : ∃ message, e = .invalid message
          · obtain ⟨message, rfl⟩ := he
            exact .refused (by decide) rfl
          · have hlost : Handled p d h r (fail 500 "快照保存失败",
                (countRequest d h ("node/" ++ n.id) 600).2) :=
              .lost hroute (hid ▸ hasKey_authenticate hn) hingest (fun m hm => he ⟨m, hm⟩) rfl
            cases e with
            | invalid message => exact absurd ⟨message, rfl⟩ he
            | noRows => exact hlost
            | constraint => exact hlost

theorem loginCopy_handled : Handled p d h r (loginCopy p h r) := by
  unfold loginCopy
  split_ifs
  · exact .page rfl
  · cases (decode p.json.loginCopy r 16384).filter (fun v => !tooLong v) with
    | none => exact .refused (by decide) rfl
    | some v => exact .copied v

theorem changePassword_handled (hroute : route r = "/accounts/password") :
    Handled p d h r (Api.changePassword p d h r) := by
  unfold Api.changePassword
  cases hb : (decode p.json.credentials r 4096).filter validPassword with
  | none => exact .refused (by decide) rfl
  | some b =>
    have hdecoded := (Option.filter_eq_some_iff.mp hb).1
    simp only
    cases hsalted : d.salted b.password with
    | none => exact .unsalted hroute hdecoded hsalted
    | some salted => exact .changed hroute hdecoded hsalted

theorem administer_handled : Handled p d h r (administer p d h r (route r)) := by
  unfold administer
  split_ifs with hcopy hcreate hnode hpassword
  · exact loginCopy_handled
  · exact createNode_handled hcreate.1
  · refine updateNode_handled (fun hc => ?_) _
    rw [hc, String.startsWith_string_iff] at hnode
    exact absurd hnode (by decide)
  · exact changePassword_handled hpassword.1
  · exact .refused (by decide) rfl

/-- Every response has its cause and its effect. -/
theorem api_handled (p : Platform) (d : Draw) (h : HubState) (r : Request) :
    Handled p d h r (api p d h r) := by
  have hcases := api_dispatched p d h r
  generalize api p d h r = x at hcases ⊢
  cases hcases with
  | refused below => exact .refused below rfl
  | page page => exact .page page
  | file get path known => exact .file get path known
  | loginCopy get => exact loginCopy_handled
  | login path post => exact login_handled path
  | enroll path post => exact enroll_handled path
  | snapshots path post => exact snapshots_handled path
  | logout path post known csrf origin => exact .closed
  | administer known admin guarded => exact administer_handled

/-! ## The store after a request -/

/-- What a request does to the store: one request about nodes, or a change of the tables that carry
neither nodes nor measurements. -/
inductive Outcome (p : Platform) (d : Draw) (st : Store) : Store → Prop
  | serve (q : NodeRequest) : Outcome p d st (serve p st (d, q))
  | access (settings : Table SettingRow SettingRow.key)
      (accounts : Table AccountRow AccountRow.username)
      (sessions : Table SessionRow SessionRow.hash) : Outcome p d st
        { st with settings := settings, accounts := accounts, sessions := sessions }

theorem outcome_refl (st : Store) : Outcome p d st st := .access st.settings st.accounts st.sessions

theorem insertSession_ok {st st' : Store} {s : SessionRow} (hs : insertSession st s = some st') :
    ∃ hfree, st' = { st with sessions := st.sessions.insert s hfree } := by
  unfold insertSession at hs
  split_ifs at hs with hfree
  cases hs
  exact ⟨hfree, rfl⟩

theorem Handled.outcome {x : Response × HubState} (hx : Handled p d h r x) :
    Outcome p d h.db x.2.db := by
  cases hx with
  | refused below kept => exact kept ▸ outcome_refl _
  | page page => exact outcome_refl _
  | file get path known => exact outcome_refl _
  | sessionTaken path taken kept => exact kept ▸ outcome_refl _
  | nodeTaken path taken => exact outcome_refl _
  | unsalted path decoded failed => exact outcome_refl _
  | lost path registered failed internal kept => exact kept ▸ outcome_refl _
  | opened decoded found right inserted =>
    obtain ⟨hfree, hdb⟩ := insertSession_ok inserted
    rw [hdb]
    exact .access _ _ _
  | closed => exact .access _ _ _
  | copied v => exact .access _ _ _
  | changed path decoded salt => exact .access _ _ _
  | served q ok plain elsewhere done => exact done ▸ .serve q

theorem api_outcome (p : Platform) (d : Draw) (h : HubState) (r : Request) :
    Outcome p d h.db (api p d h r).2.db := (api_handled p d h r).outcome

/-- What a request does to the nodes: nothing, or what one node request does. -/
def ServesNodes (p : Platform) (d : Draw) (st st' : Store) : Prop :=
  st'.nodes = st.nodes ∨ ∃ q, st' = serve p st (d, q)

theorem api_serves (p : Platform) (d : Draw) (h : HubState) (r : Request) :
    ServesNodes p d h.db (api p d h r).2.db := by
  have houtcome := api_outcome p d h r
  generalize (api p d h r).2.db = st at houtcome ⊢
  cases houtcome with
  | serve q => exact .inr ⟨q, rfl⟩
  | access settings accounts sessions => exact .inl rfl

/-- A request about nodes is an upload or administration. -/
theorem serve_cases (st : Store) (q : NodeRequest) :
    (∃ s, serve p st (d, q) = ingested d.now st s) ∨ Live.Administers st (serve p st (d, q)) := by
  have hcall : ∀ c, Live.Administers st (answered st (nodeOperation p st (d, c))).2 := fun c =>
    nodeCall_eq p st (d, c) ▸ Live.administers_nodeCall (d, c)
  cases q with
  | create name =>
    have hcreate := hcall (.create name)
    simp only [nodeOperation] at hcreate
    simp only [serve]
    cases hok : create p d st name with
    | error e => exact .inr (Live.administers_refl st)
    | ok result => exact .inr (by simpa [hok, answered, Except.map] using hcreate)
  | issueCode id =>
    have hissue := hcall (.issueCode id)
    simp only [nodeOperation] at hissue
    simp only [serve]
    cases hok : issueCode p d st id with
    | error e => exact .inr (Live.administers_refl st)
    | ok result => exact .inr (by simpa [hok, answered, Except.map] using hissue)
  | revoke id =>
    have hrevoke := hcall (.revoke id)
    simp only [nodeOperation] at hrevoke
    simp only [serve]
    cases hok : revoke st id with
    | error e => exact .inr (Live.administers_refl st)
    | ok st' => exact .inr (by simpa [hok, answered] using hrevoke)
  | configure id settings =>
    have hconfigure := hcall (.configure id settings)
    simp only [nodeOperation] at hconfigure
    simp only [serve]
    cases hok : configure p st id settings with
    | error e => exact .inr (Live.administers_refl st)
    | ok st' => exact .inr (by simpa [hok, answered] using hconfigure)
  | enroll code =>
    simp only [serve]
    cases henroll : Hub.enroll p d st code with
    | none => exact .inr (Live.administers_refl st)
    | some result => exact .inr (Live.administers_enroll henroll)
  | snapshots credential s =>
    simp only [serve]
    cases authenticate p st credential with
    | none => exact .inr (Live.administers_refl st)
    | some n =>
      simp only
      split_ifs
      · exact .inl ⟨s, rfl⟩
      · exact .inr (Live.administers_refl st)

end Handlers

end CardScope.Access
