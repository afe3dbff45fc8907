import CardScope.Access.Dispatch
import CardScope.Library.Mutex

/-! # Requests under the lock

Redemptions of codes, uploads, the requests of administrators and the cleanup hold the lock of the
hub. Here they run statement by statement, any number of them at a time, next to the statements of
logins and logouts, which take no lock.
-/

namespace CardScope.Access
open Library Model Hub Hub.Api

/-- A request that takes the lock, or the cleanup. A redemption was admitted and decoded before; the
limiter answers an upload inside. -/
inductive Locked where
  | administer (d : Draw) (r : Request) (path : String)
  | enroll (d : Draw) (code : String)
  | snapshots (d : Draw) (r : Request) (limited : Bool)
  | cleanup (now : ℤ)

/-- The statements outside of the lock that write: of a login and of a logout. -/
inductive Unlocked where
  | insertSession (s : SessionRow)
  | deleteSession (hash : String)

abbrev Section := Program Store (Option Response)

def answer (response : Response) : Section := .done (some response)

theorem NodeRow.revoked_id : ∀ n : NodeRow, n.revoked.id = n.id := fun _ => rfl

theorem NodeRow.configured_id (s : NodeSettings) (name : String) (tags : List String) :
    ∀ n : NodeRow, (n.configured s name tags).id = n.id := fun _ => rfl

theorem NodeRow.issued_id (p : Platform) (d : Draw) :
    ∀ n : NodeRow, (n.issued (p.hash d.first.text) (codeExpiry d.now)).id = n.id := fun _ => rfl

theorem NodeRow.enrolled_id (p : Platform) (d : Draw) :
    ∀ n : NodeRow, (n.enrolled (p.hash d.first.text)).id = n.id := fun _ => rfl

/-- The one UPDATE of an operation on a node. -/
def updateSection (id : String) (f : NodeRow → NodeRow) (hf : ∀ n, (f n).id = n.id)
    (fallback : String) (response : Response) : Section :=
  .stmt (fun st => (execUpdate st id f hf).2) fun st =>
    match (execUpdate st id f hf).1 with
    | .error e => answer (nodeFailure e fallback)
    | .ok () => answer response

def createSection (p : Platform) (d : Draw) (r : Request) : Section :=
  match decode p.json.name r 4096 with
  | none => answer (fail 400 "节点名称无效")
  | some name =>
    let name := trimSpace name
    if name = "" ∨ len name > 128 then answer (nodeFailure (.input "节点名称无效") "创建失败")
    else .select fun st =>
      if nameTaken p st name "" then answer (nodeFailure (.input "节点名称已存在") "创建失败")
      else
        let row : NodeRow := {
          id := nodeIDOf d.first
          name := name
          codeHash := p.hash d.second.text
          codeExpires := codeExpiry d.now
          created := d.now }
        .stmt (fun st => (execInsert st row).2) fun st =>
          match (execInsert st row).1 with
          | .error e => answer (nodeFailure e "创建失败")
          | .ok () => answer (respond 201 (.enrollment ⟨row.id, d.second.text⟩))

def configureSection (p : Platform) (id : String) (s : NodeSettings) : Section :=
  let refused := fun message => answer (nodeFailure (.input message) "保存失败")
  let name := trimSpace s.name
  if name = "" ∨ len name > 128 ∨ s.expected < 0 ∨ s.expected > 128 ∨ s.networks.length > 64 then
    refused "配置无效"
  else .select fun st =>
    if nameTaken p st name id then refused "节点名称已存在"
    else if s.networks.any (fun n => len n > 128) then refused "网卡名称过长"
    else if (s.tags.getD []).length > 20 then refused "每个节点最多 20 个标签"
    else match cleanTags (s.tags.getD []) [] with
      | .error e => answer (nodeFailure e "保存失败")
      | .ok tags => updateSection id (NodeRow.configured s name tags)
        (NodeRow.configured_id s name tags) "保存失败" (respond 200 .ok)

def updateNodeSection (p : Platform) (d : Draw) (r : Request) (path : String) : Section :=
  let parts := split (trimPrefix path "/nodes/")
  let id := parts.headD ""
  .select fun st => match requireNode st id with
    | .error e => answer (nodeFailure e "节点查询失败")
    | .ok () =>
      if parts.length = 2 ∧ r.method = "POST" then
        if parts.getD 1 "" = "revoke" then
          updateSection id NodeRow.revoked NodeRow.revoked_id "更新失败" (respond 200 .ok)
        else if parts.getD 1 "" = "enrollment" then
          updateSection id (NodeRow.issued (p.hash d.first.text) (codeExpiry d.now))
            (NodeRow.issued_id p d) "更新失败" (respond 200 (.code d.first.text))
        else answer (fail 404 "接口不存在")
      else if parts.length = 1 ∧ r.method = "PATCH" then
        match decode p.json.settings r 8192 with
        | none => answer (fail 400 "配置无效")
        | some settings => configureSection p id settings
      else answer (fail 404 "接口不存在")

def loginCopySection (p : Platform) (r : Request) : Section :=
  match (decode p.json.loginCopy r 16384).filter (fun v => !tooLong v) with
  | none => answer (fail 400 "文案过长或格式无效")
  | some v =>
    .stmt (fun st => { st with settings := st.settings.put ⟨"login_copy", v⟩ })
      fun _ => answer (respond 200 (.loginCopy v))

def passwordSection (p : Platform) (d : Draw) (r : Request) : Section :=
  match (decode p.json.credentials r 4096).filter validPassword with
  | none => answer (fail 400 "密码须为 10～72 字节")
  | some b => match d.salted b.password with
    | none => answer (fail 500 "更新失败")
    | some salted =>
      .stmt (fun st => Hub.changePassword st b.username salted) fun _ => answer (respond 200 .ok)

def administerSection (p : Platform) (d : Draw) (r : Request) (path : String) : Section :=
  if path = "/login-copy" ∧ r.method = "PUT" then loginCopySection p r
  else if path = "/nodes" ∧ r.method = "POST" then createSection p d r
  else if path.startsWith "/nodes/" then updateNodeSection p d r path
  else if path = "/accounts/password" ∧ r.method = "POST" then passwordSection p d r
  else answer (fail 404 "接口不存在")

/-- Find the node of the code, then store its token and clear the code. -/
def enrollSection (p : Platform) (d : Draw) (code : String) : Section :=
  .select fun st => match nodeOfCode p d.now st code with
    | none => answer (fail 401 "接入码无效或已过期")
    | some n =>
      .stmt (fun st =>
        { st with
          nodes := st.nodes.modify n.id (NodeRow.enrolled (p.hash d.first.text))
            (NodeRow.enrolled_id p d) })
        fun _ => answer (respond 200 (.token n.id d.first.text))

def uploadResponse : Except IngestError Store → Response
  | .error (.invalid message) => fail 400 message
  | .error _ => fail 500 "快照保存失败"
  | .ok _ => respond 200 .ok

/-- Find the node of the token, then store the sample in a transaction. A credential of another
length is refused before the lock. -/
def snapshotsSection (p : Platform) (d : Draw) (r : Request) (limited : Bool) : Section :=
  let credential := trimPrefix r.authorization "Bearer "
  if len credential = 64 then
    .select fun st => match nodeOfToken p st credential with
      | none => answer (fail 401 "节点凭据无效")
      | some n =>
        if limited then answer (fail 429 "上报过于频繁")
        else match (decode p.json.snapshot r (4 * 2 ^ 20)).filter (fun s => s.nodeID = n.id) with
          | none => answer (fail 400 "快照无效")
          | some s =>
            .stmt (fun st => ingested d.now st s) fun st =>
              answer (uploadResponse (ingest d.now st s))
  else answer (fail 401 "节点凭据无效")

def sectionOf (p : Platform) : Locked → Section
  | .administer d r path => administerSection p d r path
  | .enroll d code => enrollSection p d code
  | .snapshots d r limited => snapshotsSection p d r limited
  | .cleanup now => .stmt (prune now) fun _ => .done none

def unlocked (st : Store) : Unlocked → Store
  | .insertSession s => (insertSession st s).getD st
  | .deleteSession hash => Hub.logout st hash

def hubService (p : Platform) : Service Locked Unlocked Store (Option Response) where
  program := sectionOf p
  foreign := unlocked

/-- The same requests as the handlers serve them, at once. -/
def atomically (p : Platform) (st : Store) : Locked → Store × Option Response
  | .administer d r path =>
    let served := administer p d ⟨st, Table.empty⟩ r path
    (served.2.db, some served.1)
  | .enroll d code => match redeem p d st code with
    | none => (st, some (fail 401 "接入码无效或已过期"))
    | some (id, token, st') => (st', some (respond 200 (.token id token)))
  | .snapshots d r limited => match authenticate p st (trimPrefix r.authorization "Bearer ") with
    | none => (st, some (fail 401 "节点凭据无效"))
    | some n =>
      if limited then (st, some (fail 429 "上报过于频繁"))
      else match (decode p.json.snapshot r (4 * 2 ^ 20)).filter (fun s => s.nodeID = n.id) with
        | none => (st, some (fail 400 "快照无效"))
        | some s => (ingested d.now st s, some (uploadResponse (ingest d.now st s)))
  | .cleanup now => (prune now st, none)

section Sections

variable {p : Platform} {d : Draw} {r : Request}

theorem exec_createSection (h : HubState) : (createSection p d r).exec h.db =
    ((createNode p d h r).2.db, some (createNode p d h r).1) := by
  unfold createSection createNode
  cases decode p.json.name r 4096 with
  | none => rfl
  | some name =>
    simp only [create, execInsert]
    by_cases hname : trimSpace name = "" ∨ len (trimSpace name) > 128
    · simp only [if_pos hname]
      rfl
    · simp only [if_neg hname, Program.exec_select]
      by_cases htaken : nameTaken p h.db (trimSpace name) "" = true
      · simp only [if_pos htaken]
        rfl
      · simp only [if_neg htaken, Program.exec_stmt]
        by_cases hkey : h.db.nodes.HasKey (nodeIDOf d.first)
        · simp only [dif_pos hkey]
          rfl
        · simp only [dif_neg hkey]
          rfl

theorem exec_updateSection (st : Store) (id : String) (f : NodeRow → NodeRow)
    (hf : ∀ n, (f n).id = n.id) (fallback : String) (response : Response) :
    (updateSection id f hf fallback response).exec st = match updateRow st id f hf with
      | .error e => (st, some (nodeFailure e fallback))
      | .ok st' => (st', some response) := by
  simp only [updateSection, Program.exec_stmt, execUpdate_eq]
  cases updateRow st id f hf <;> rfl

theorem exec_configureSection (id : String) (s : NodeSettings) (st : Store) :
    (configureSection p id s).exec st = match configure p st id s with
      | .error e => (st, some (nodeFailure e "保存失败"))
      | .ok st' => (st', some (respond 200 .ok)) := by
  simp only [configureSection, configure]
  by_cases hinput : trimSpace s.name = "" ∨ len (trimSpace s.name) > 128 ∨ s.expected < 0 ∨
      s.expected > 128 ∨ s.networks.length > 64
  · simp only [if_pos hinput]
    rfl
  · simp only [if_neg hinput, Program.exec_select]
    split_ifs
    · rfl
    · rfl
    · rfl
    · cases cleanTags (s.tags.getD []) [] with
      | error e => rfl
      | ok tags => exact exec_updateSection st id _ _ _ _

theorem exec_updateNodeSection (h : HubState) (path : String) :
    (updateNodeSection p d r path).exec h.db =
      ((updateNode p d h r path).2.db, some (updateNode p d h r path).1) := by
  simp only [updateNodeSection, updateNode, Program.exec_select]
  cases requireNode h.db ((split (trimPrefix path "/nodes/")).headD "") with
  | error e => rfl
  | ok found =>
    simp only
    split_ifs
    · refine (exec_updateSection h.db _ NodeRow.revoked (fun _ => rfl) _ _).trans ?_
      rw [revoke]
      cases updateRow h.db ((split (trimPrefix path "/nodes/")).headD "") NodeRow.revoked
        (fun _ => rfl) <;> rfl
    · refine (exec_updateSection h.db _ (NodeRow.issued (p.hash d.first.text) (codeExpiry d.now))
        (fun _ => rfl) _ _).trans ?_
      rw [issueCode]
      cases updateRow h.db ((split (trimPrefix path "/nodes/")).headD "")
        (NodeRow.issued (p.hash d.first.text) (codeExpiry d.now)) (fun _ => rfl) <;> rfl
    · rfl
    · cases decode p.json.settings r 8192 with
      | none => rfl
      | some settings =>
        simp only [exec_configureSection]
        cases configure p h.db ((split (trimPrefix path "/nodes/")).headD "") settings <;> rfl
    · rfl

theorem exec_loginCopySection (h : HubState) (hput : r.method = "PUT") :
    (loginCopySection p r).exec h.db = ((loginCopy p h r).2.db, some (loginCopy p h r).1) := by
  unfold loginCopySection loginCopy
  rw [if_neg (by rw [hput]; decide)]
  cases (decode p.json.loginCopy r 16384).filter (fun v => !tooLong v) <;> rfl

theorem exec_passwordSection (h : HubState) : (passwordSection p d r).exec h.db =
    ((Api.changePassword p d h r).2.db, some (Api.changePassword p d h r).1) := by
  unfold passwordSection Api.changePassword
  cases (decode p.json.credentials r 4096).filter validPassword with
  | none => rfl
  | some b =>
    simp only
    cases d.salted b.password <;> rfl

theorem exec_administerSection (h : HubState) (path : String) :
    (administerSection p d r path).exec h.db =
      ((administer p d h r path).2.db, some (administer p d h r path).1) := by
  unfold administerSection administer
  split_ifs with hcopy
  · exact exec_loginCopySection h hcopy.2
  · exact exec_createSection h
  · exact exec_updateNodeSection h path
  · exact exec_passwordSection h
  · rfl

theorem exec_enrollSection (code : String) (st : Store) :
    (enrollSection p d code).exec st = atomically p st (.enroll d code) := by
  simp only [enrollSection, Program.exec_select, atomically, redeem]
  cases nodeOfCode p d.now st code <;> rfl

theorem exec_snapshotsSection (limited : Bool) (st : Store) :
    (snapshotsSection p d r limited).exec st = atomically p st (.snapshots d r limited) := by
  simp only [snapshotsSection, atomically, authenticate]
  by_cases hlen : len (trimPrefix r.authorization "Bearer ") = 64
  · simp only [if_pos hlen, Program.exec_select]
    cases nodeOfToken p st (trimPrefix r.authorization "Bearer ") with
    | none => rfl
    | some n =>
      cases limited with
      | true => rfl
      | false =>
        simp only [Bool.false_eq_true, if_false]
        generalize (decode p.json.snapshot r (4 * 2 ^ 20)).filter (fun s => s.nodeID = n.id) = found
        cases found <;> rfl
  · simp only [if_neg hlen]
    rfl

/-- Without interruption a section does what the handler does. -/
theorem exec_sectionOf (p : Platform) (q : Locked) (st : Store) :
    (sectionOf p q).exec st = atomically p st q := by
  cases q with
  | administer d r path =>
    simp only [sectionOf, atomically]
    exact exec_administerSection ⟨st, Table.empty⟩ path
  | enroll d code =>
    rw [sectionOf]
    exact exec_enrollSection code st
  | snapshots d r limited =>
    rw [sectionOf]
    exact exec_snapshotsSection limited st
  | cleanup now => rfl

theorem nodes_unlocked (st : Store) (f : Unlocked) : (unlocked st f).nodes = st.nodes := by
  cases f with
  | insertSession s =>
    simp only [unlocked, insertSession]
    split_ifs <;> rfl
  | deleteSession hash => rfl

section Reads

variable (st : Store) (f : Unlocked)

/-- Sections read nodes only, which logins and logouts leave alone. -/
theorem nameTaken_unlocked (name id : String) :
    nameTaken p (unlocked st f) name id = nameTaken p st name id := by
  simp only [nameTaken, nodes_unlocked]

theorem requireNode_unlocked (id : String) :
    requireNode (unlocked st f) id = requireNode st id := by
  simp only [requireNode, nodes_unlocked]

theorem nodeOfCode_unlocked (now : ℤ) (code : String) :
    nodeOfCode p now (unlocked st f) code = nodeOfCode p now st code := by
  simp only [nodeOfCode, nodes_unlocked]

theorem nodeOfToken_unlocked (credential : String) :
    nodeOfToken p (unlocked st f) credential = nodeOfToken p st credential := by
  simp only [nodeOfToken, nodes_unlocked]

end Reads

theorem readsFirst_answer (response : Response) : (hubService p).ReadsFirst (answer response) :=
  Service.readsFirst_done _ _

theorem readsFirst_updateSection (id : String) (f : NodeRow → NodeRow)
    (hf : ∀ n, (f n).id = n.id) (fallback : String) (response : Response) :
    (hubService p).ReadsFirst (updateSection id f hf fallback response) := by
  apply Service.readsFirst_last
  intro st
  cases (execUpdate st id f hf).1 <;> rfl

theorem readsFirst_createSection : (hubService p).ReadsFirst (createSection p d r) := by
  unfold createSection
  cases decode p.json.name r 4096 with
  | none => exact readsFirst_answer _
  | some name =>
    simp only
    by_cases hname : trimSpace name = "" ∨ len (trimSpace name) > 128
    · rw [if_pos hname]
      exact readsFirst_answer _
    · rw [if_neg hname]
      apply Service.readsFirst_select
      · intro f st
        simp only [hubService, nameTaken_unlocked]
      · intro st
        split_ifs
        · exact readsFirst_answer _
        · apply Service.readsFirst_last
          intro st
          cases (execInsert st _).1 <;> rfl

theorem readsFirst_configureSection (id : String) (s : NodeSettings) :
    (hubService p).ReadsFirst (configureSection p id s) := by
  unfold configureSection
  simp only
  by_cases hinput : trimSpace s.name = "" ∨ len (trimSpace s.name) > 128 ∨ s.expected < 0 ∨
      s.expected > 128 ∨ s.networks.length > 64
  · rw [if_pos hinput]
    exact readsFirst_answer _
  · rw [if_neg hinput]
    apply Service.readsFirst_select
    · intro f st
      simp only [hubService, nameTaken_unlocked]
    · intro st
      split_ifs
      · exact readsFirst_answer _
      · exact readsFirst_answer _
      · exact readsFirst_answer _
      · cases cleanTags (s.tags.getD []) [] with
        | error e => exact readsFirst_answer _
        | ok tags => exact readsFirst_updateSection _ _ _ _ _

theorem readsFirst_updateNodeSection (path : String) :
    (hubService p).ReadsFirst (updateNodeSection p d r path) := by
  unfold updateNodeSection
  apply Service.readsFirst_select
  · intro f st
    simp only [hubService, requireNode_unlocked]
  · intro st
    cases requireNode st ((split (trimPrefix path "/nodes/")).headD "") with
    | error e => exact readsFirst_answer _
    | ok found =>
      simp only
      split_ifs
      · exact readsFirst_updateSection _ _ _ _ _
      · exact readsFirst_updateSection _ _ _ _ _
      · exact readsFirst_answer _
      · cases decode p.json.settings r 8192 with
        | none => exact readsFirst_answer _
        | some settings => exact readsFirst_configureSection _ settings
      · exact readsFirst_answer _

theorem readsFirst_administerSection (path : String) :
    (hubService p).ReadsFirst (administerSection p d r path) := by
  unfold administerSection
  split_ifs
  · unfold loginCopySection
    cases (decode p.json.loginCopy r 16384).filter (fun v => !tooLong v) with
    | none => exact readsFirst_answer _
    | some v => exact Service.readsFirst_last _ (fun _ => rfl)
  · exact readsFirst_createSection
  · exact readsFirst_updateNodeSection path
  · unfold passwordSection
    cases (decode p.json.credentials r 4096).filter validPassword with
    | none => exact readsFirst_answer _
    | some b =>
      simp only
      cases d.salted b.password with
      | none => exact readsFirst_answer _
      | some salted => exact Service.readsFirst_last _ (fun _ => rfl)
  · exact readsFirst_answer _

theorem readsFirst_enrollSection (code : String) :
    (hubService p).ReadsFirst (enrollSection p d code) := by
  unfold enrollSection
  apply Service.readsFirst_select
  · intro f st
    simp only [hubService, nodeOfCode_unlocked]
  · intro st
    cases nodeOfCode p d.now st code with
    | none => exact readsFirst_answer _
    | some n => exact Service.readsFirst_last _ (fun _ => rfl)

theorem readsFirst_snapshotsSection (limited : Bool) :
    (hubService p).ReadsFirst (snapshotsSection p d r limited) := by
  unfold snapshotsSection
  simp only
  by_cases hlen : len (trimPrefix r.authorization "Bearer ") = 64
  · rw [if_pos hlen]
    apply Service.readsFirst_select
    · intro f st
      simp only [hubService, nodeOfToken_unlocked]
    · intro st
      cases nodeOfToken p st (trimPrefix r.authorization "Bearer ") with
      | none => exact readsFirst_answer _
      | some n =>
        cases limited with
        | true => exact readsFirst_answer _
        | false =>
          simp only [Bool.false_eq_true, if_false]
          generalize (decode p.json.snapshot r (4 * 2 ^ 20)).filter (fun s => s.nodeID = n.id) = found
          cases found with
          | none => exact readsFirst_answer _
          | some s => exact Service.readsFirst_last _ (fun _ => rfl)
  · rw [if_neg hlen]
    exact readsFirst_answer _

/-- No section reads what logins and logouts write, before its last statement. -/
theorem readsFirst_sectionOf (p : Platform) (q : Locked) :
    (hubService p).ReadsFirst (sectionOf p q) := by
  cases q with
  | administer d r path =>
    rw [sectionOf]
    exact readsFirst_administerSection path
  | enroll d code =>
    rw [sectionOf]
    exact readsFirst_enrollSection code
  | snapshots d r limited =>
    rw [sectionOf]
    exact readsFirst_snapshotsSection limited
  | cleanup now =>
    rw [sectionOf]
    exact Service.readsFirst_last _ (fun _ => rfl)

end Sections

section Requests

variable {p : Platform} {d : Draw} {h : HubState} {r : Request}

/-- A request is served under the lock, or it writes by statements outside of it, if at all. -/
def Runs (p : Platform) (h : HubState) (x : Response × HubState) : Prop :=
  (∃ q, (x.2.db, some x.1) = atomically p h.db q) ∨
    ∃ fs : List Unlocked, x.2.db = fs.foldl unlocked h.db

theorem runs_same {x : Response × HubState} (hx : x.2.db = h.db) : Runs p h x := .inr ⟨[], hx⟩

theorem runs_login : Runs p h (login p d h r) := by
  unfold login
  simp only
  split_ifs
  · exact runs_same rfl
  · cases decode p.json.credentials r 4096 with
    | none => exact runs_same rfl
    | some b =>
      simp only [countRequest_db]
      cases checkPassword p (readAccount h.db b.username) b.password with
      | none => exact runs_same rfl
      | some account =>
        simp only
        cases hs : insertSession h.db
          (newSession (p.hash d.first.text) b.username d.second.text d.now) with
        | none => exact runs_same rfl
        | some st' =>
          refine .inr ⟨[.insertSession
            (newSession (p.hash d.first.text) b.username d.second.text d.now)], ?_⟩
          simp [unlocked, hs]

theorem runs_enroll : Runs p h (Api.enroll p d h r) := by
  unfold Api.enroll
  simp only
  split_ifs
  · exact runs_same rfl
  · cases hc : (decode p.json.code r 4096).filter (fun code => len code = 64) with
    | none => exact runs_same rfl
    | some code =>
      have hlen : len code = 64 := of_decide_eq_true (Option.filter_eq_some_iff.mp hc).2
      refine .inl ⟨.enroll d code, ?_⟩
      simp only [countRequest_db, Hub.enroll, if_pos hlen, atomically]
      cases redeem p d h.db code <;> rfl

theorem runs_snapshots : Runs p h (snapshots p d h r) := by
  unfold snapshots
  cases ha : authenticate p h.db (trimPrefix r.authorization "Bearer ") with
  | none => exact runs_same rfl
  | some n =>
    refine .inl ⟨.snapshots d r (!(countRequest d h ("node/" ++ n.id) 600).1), ?_⟩
    simp only [atomically, ha, countRequest_db]
    cases (countRequest d h ("node/" ++ n.id) 600).1 with
    | false => rfl
    | true =>
      simp only [Bool.not_true, Bool.false_eq_true, if_false]
      generalize (decode p.json.snapshot r (4 * 2 ^ 20)).filter (fun s => s.nodeID = n.id) = found
      cases found with
      | none => rfl
      | some s =>
        cases hi : ingest d.now h.db s with
        | error e =>
          have hdb : ingested d.now h.db s = h.db := by
            unfold ingested
            rw [hi]
          cases e <;> simp only [hi, hdb, uploadResponse, countRequest_db]
        | ok st' =>
          have hdb : ingested d.now h.db s = st' := by
            unfold ingested
            rw [hi]
          simp only [hi, hdb, uploadResponse]

theorem runs_administer (path : String) : Runs p h (administer p d h r path) := by
  refine .inl ⟨.administer d r path, ?_⟩
  rw [← exec_sectionOf, sectionOf]
  exact (exec_administerSection h path).symm

theorem runs_api (p : Platform) (d : Draw) (h : HubState) (r : Request) :
    Runs p h (api p d h r) := by
  have hcases := api_dispatched p d h r
  generalize api p d h r = x at hcases ⊢
  cases hcases with
  | refused below => exact runs_same rfl
  | page page => exact runs_same rfl
  | file get path known => exact runs_same rfl
  | loginCopy get => exact runs_same (by rw [loginCopy_get get])
  | login path post => exact runs_login
  | enroll path post => exact runs_enroll
  | snapshots path post => exact runs_snapshots
  | logout path post known csrf origin =>
    exact .inr ⟨[.deleteSession (p.hash (r.cookie.getD ""))], rfl⟩
  | administer known admin guarded => exact runs_administer _

end Requests

section Runs

variable {ι : Type*} [DecidableEq ι]

def opening (st : Store) : Shop ι Locked Unlocked Store (Option Response) where
  state := st
  owner := none
  clients := fun _ => .idle
  history := []

/-- The handlers one after the other. -/
def serially (p : Platform) (st : Store)
    (history : List (Took ι Locked Unlocked (Option Response))) : Store :=
  history.foldl (fun st took => match took with
    | .ran _ q _ => (atomically p st q).1
    | .foreign f => unlocked st f) st

omit [DecidableEq ι] in
theorem replay_hubService (p : Platform) (st : Store)
    (history : List (Took ι Locked Unlocked (Option Response))) :
    (hubService p).replay st history = serially p st history := by
  unfold Service.replay serially
  congr
  funext st took
  cases took with
  | ran i q a => exact congrArg Prod.fst (exec_sectionOf p q st)
  | foreign f => rfl

/-- However the statements of concurrent requests interleave, state and answers are those of the
handlers one after the other, each within the time of its request. -/
theorem requests_serialised (p : Platform) (st : Store) (moves : List (Move ι Locked Unlocked)) :
    ((hubService p).run (opening st) moves).state =
        serially p st ((hubService p).run (opening st) moves).history ∧
    (∀ before i q a after,
      ((hubService p).run (opening st) moves).history = before ++ .ran i q a :: after →
        a = (atomically p (serially p st before) q).2) ∧
    (∀ i q a since, ((hubService p).run (opening st) moves).clients i = .answered q a since →
      ∃ k, since ≤ k ∧ ((hubService p).run (opening st) moves).history[k]? = some (.ran i q a)) ∧
    ∀ i j q q' rest rest' since since',
      ((hubService p).run (opening st) moves).clients i = .inside q rest since →
      ((hubService p).run (opening st) moves).clients j = .inside q' rest' since' → i = j := by
  have hopening : Serial (hubService p) st (opening (ι := ι) st) := by
    refine ⟨rfl, fun before i q a after heq => ?_, fun i => trivial⟩
    simp [opening] at heq
  have hserial := hopening.run (readsFirst_sectionOf p) moves
  generalize (hubService p).run (opening st) moves = x at hserial
  refine ⟨?_, fun before i q a after heq => ?_, fun i q a since hi => ?_,
    fun i j q q' rest rest' since since' hi hj => ?_⟩
  · rw [hserial.state, replay_hubService]
  · have hanswer := hserial.answers before i q a after heq
    rw [replay_hubService] at hanswer
    rw [hanswer, ← exec_sectionOf]
    rfl
  · have hplaced := hserial.placed i
    rwa [hi] at hplaced
  · have hplaced := hserial.placed i
    have hplaced' := hserial.placed j
    rw [hi] at hplaced
    rw [hj] at hplaced'
    exact Option.some.inj (hplaced.1.symm.trans hplaced'.1)

end Runs

end CardScope.Access
