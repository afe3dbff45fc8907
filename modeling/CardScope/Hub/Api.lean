import CardScope.Hub.Accounts
import CardScope.Hub.Enrollment
import CardScope.Hub.Limits
import CardScope.Hub.Statistics

/-! # The API

The handlers behind `/api/v1` and the tests that lead to them. Logins, enrollments and uploads
come before the session of the pages, so that the credential of a node opens nothing else.
-/

namespace CardScope.Hub.Api
open Library Model

inductive Body where
  | error (message : String)
  | ok
  | user (u : User)
  | loginCopy (v : LoginCopy)
  | token (nodeID token : String)
  | enrollment (e : NodeEnrollment)
  | code (code : String)
  | nodes (rows : List NodeView)
  | history (range : Range) (points : List HistoryPoint)
  | clusterHistory (range : Range) (points : List ClusterPoint)
  | stats (range : Range) (rows : List StatRow)
  | users (range : Range) (users : List UserStat) (incomplete : Bool)
  | csv (filename : String) (lines : List (List String))
  | events (rows : List EventView)
deriving DecidableEq

structure Response where
  status : ℕ
  body : Body
  cookie : Option Cookie := none
deriving DecidableEq

def respond (status : ℕ) (body : Body) : Response := { status := status, body := body }

def fail (status : ℕ) (message : String) : Response := respond status (.error message)

/-- Count a request; the state with the new counter. -/
def countRequest (d : Draw) (h : HubState) (key : String) (limit : ℕ) : Bool × HubState :=
  let counted := allowed h.rates d.now key limit
  (counted.1, { h with rates := counted.2 })

def login (p : Platform) (d : Draw) (h : HubState) (r : Request) : Response × HubState :=
  let counted := countRequest d h ("login/" ++ r.ip) 10
  let h := counted.2
  if !counted.1 then (fail 429 "尝试过于频繁，请稍后重试", h)
  else match decode p.json.credentials r 4096 with
    | none => (fail 400 "请求无效", h)
    | some b => match checkPassword p (readAccount h.db b.username) b.password with
      | none => (fail 401 "账号或密码不正确", h)
      | some account =>
        let s := newSession (p.hash d.first.text) b.username d.second.text d.now
        match insertSession h.db s with
        | none => (fail 500 "会话创建失败", h)
        | some db =>
          let response : Response := {
            status := 200
            body := .user ⟨b.username, account.role, d.second.text⟩
            cookie := some { value := d.first.text, maxAge := 43200, secure := r.tls } }
          (response, { h with db := db })

def enroll (p : Platform) (d : Draw) (h : HubState) (r : Request) : Response × HubState :=
  let counted := countRequest d h ("enroll/" ++ r.ip) 30
  let h := counted.2
  if !counted.1 then (fail 429 "尝试过于频繁", h)
  else match (decode p.json.code r 4096).filter (fun code => len code = 64) with
    | none => (fail 400 "无效接入码", h)
    | some code => match Hub.enroll p d h.db code with
      | none => (fail 401 "接入码无效或已过期", h)
      | some (id, token, db) => (respond 200 (.token id token), { h with db := db })

def snapshots (p : Platform) (d : Draw) (h : HubState) (r : Request) : Response × HubState :=
  match authenticate p h.db (trimPrefix r.authorization "Bearer ") with
  | none => (fail 401 "节点凭据无效", h)
  | some n =>
    let counted := countRequest d h ("node/" ++ n.id) 600
    let h := counted.2
    if !counted.1 then (fail 429 "上报过于频繁", h)
    else match (decode p.json.snapshot r (4 * 2 ^ 20)).filter (fun s => s.nodeID = n.id) with
      | none => (fail 400 "快照无效", h)
      | some s => match ingest d.now h.db s with
        | .error (.invalid message) => (fail 400 message, h)
        | .error _ => (fail 500 "快照保存失败", h)
        | .ok db => (respond 200 .ok, { h with db := db })

def defaultLoginCopy : LoginCopy where
  eyebrow := "CARDSCOPE"
  title := "让算力\n清晰可见。"
  description := "每台服务器，每张显卡。\n一个安静、专注的资源工作空间。"
  caption := "实时状态 · 用户归属 · 使用统计"

def tooLong (v : LoginCopy) : Bool :=
  v.eyebrow.length > 80 || v.title.length > 120 || v.description.length > 1000 ||
    v.caption.length > 200

/-- Read the texts of the login page, or store them; writing is reached by administrators only. -/
def loginCopy (p : Platform) (h : HubState) (r : Request) : Response × HubState :=
  if r.method = "GET" then
    let v := (h.db.settings.find? "login_copy").elim defaultLoginCopy SettingRow.value
    (respond 200 (.loginCopy v), h)
  else match (decode p.json.loginCopy r 16384).filter (fun v => !tooLong v) with
    | none => (fail 400 "文案过长或格式无效", h)
    | some v =>
      let db := { h.db with settings := h.db.settings.put ⟨"login_copy", v⟩ }
      (respond 200 (.loginCopy v), { h with db := db })

def nodeFailure (e : NodeError) (fallback : String) : Response :=
  match e with
  | .input message => fail 400 message
  | .notFound => fail 404 "节点不存在"
  | .constraint => fail 500 fallback

def createNode (p : Platform) (d : Draw) (h : HubState) (r : Request) : Response × HubState :=
  match decode p.json.name r 4096 with
  | none => (fail 400 "节点名称无效", h)
  | some name => match create p d h.db name with
    | .error e => (nodeFailure e "创建失败", h)
    | .ok (result, db) => (respond 201 (.enrollment result), { h with db := db })

/-- The requests below `/nodes/`: what is done to the node is told by method and segments. -/
def updateNode (p : Platform) (d : Draw) (h : HubState) (r : Request) (path : String) :
    Response × HubState :=
  let parts := split (trimPrefix path "/nodes/")
  let id := parts.headD ""
  match requireNode h.db id with
  | .error e => (nodeFailure e "节点查询失败", h)
  | .ok () =>
    if parts.length = 2 ∧ r.method = "POST" then
      if parts.getD 1 "" = "revoke" then
        match revoke h.db id with
        | .error e => (nodeFailure e "更新失败", h)
        | .ok db => (respond 200 .ok, { h with db := db })
      else if parts.getD 1 "" = "enrollment" then
        match issueCode p d h.db id with
        | .error e => (nodeFailure e "更新失败", h)
        | .ok (code, db) => (respond 200 (.code code), { h with db := db })
      else (fail 404 "接口不存在", h)
    else if parts.length = 1 ∧ r.method = "PATCH" then
      match decode p.json.settings r 8192 with
      | none => (fail 400 "配置无效", h)
      | some settings => match configure p h.db id settings with
        | .error e => (nodeFailure e "保存失败", h)
        | .ok db => (respond 200 .ok, { h with db := db })
    else (fail 404 "接口不存在", h)

def changePassword (p : Platform) (d : Draw) (h : HubState) (r : Request) :
    Response × HubState :=
  match (decode p.json.credentials r 4096).filter validPassword with
  | none => (fail 400 "密码须为 10～72 字节", h)
  | some b => match d.salted b.password with
    | none => (fail 500 "更新失败", h)
    | some salted =>
      (respond 200 .ok, { h with db := Hub.changePassword h.db b.username salted })

def stats (p : Platform) (d : Draw) (h : HubState) (r : Request) (exported : Bool) : Response :=
  let range := queryRange d.now r
  let out := statRows d.now h.db range (r.query "node") (r.query "model")
  let filtered := filteredStats p (r.query "user") out
  if r.query "view" = "users" then
    let groups := groupUserStats filtered
    if exported then
      respond 200 (.csv "user-gpu-hours.csv" (userHeader :: groups.map (UserStat.line p range)))
    else respond 200 (.users range groups (incomplete (parents out)))
  else if exported then
    respond 200 (.csv "gpu-hours.csv" (statHeader :: filtered.map (StatRow.line p range)))
  else respond 200 (.stats range filtered)

def administer (p : Platform) (d : Draw) (h : HubState) (r : Request) (path : String) :
    Response × HubState :=
  if path = "/login-copy" ∧ r.method = "PUT" then loginCopy p h r
  else if path = "/nodes" ∧ r.method = "POST" then createNode p d h r
  else if path.startsWith "/nodes/" then updateNode p d h r path
  else if path = "/accounts/password" ∧ r.method = "POST" then changePassword p d h r
  else (fail 404 "接口不存在", h)

def pages (p : Platform) (d : Draw) (h : HubState) (r : Request) (path : String) (u : User) :
    Response × HubState :=
  if r.method ≠ "GET" ∧ r.csrf ≠ u.csrf then (fail 403 "会话校验失败", h)
  else if path = "/me" ∧ r.method = "GET" then (respond 200 (.user u), h)
  else if path = "/logout" ∧ r.method = "POST" then
    let response : Response := {
      status := 200
      body := .ok
      cookie := some { value := "", maxAge := -1 } }
    (response, { h with db := logout h.db (p.hash (r.cookie.getD "")) })
  else if path = "/nodes" ∧ r.method = "GET" then (respond 200 (.nodes (nodes d.now h.db)), h)
  else if path = "/history" ∧ r.method = "GET" then
    let found := history d.now h.db r
    (respond 200 (.history found.1 found.2), h)
  else if path = "/cluster/history" ∧ r.method = "GET" then
    let found := clusterHistory d.now h.db
    (respond 200 (.clusterHistory found.1 found.2), h)
  else if path = "/stats" ∧ r.method = "GET" then (stats p d h r false, h)
  else if path = "/export" ∧ r.method = "GET" then (stats p d h r true, h)
  else if path = "/events" ∧ r.method = "GET" then (respond 200 (.events (events h.db r)), h)
  else if u.role ≠ "admin" then (fail 403 "仅管理员可修改", h)
  else administer p d h r path

/-- The way of a request to its handler. -/
def api (p : Platform) (d : Draw) (h : HubState) (r : Request) : Response × HubState :=
  let path := trimPrefix r.path "/api/v1"
  if path = "/login-copy" ∧ r.method = "GET" then loginCopy p h r
  else if r.method ≠ "GET" ∧ !sameOrigin p r then (fail 403 "来源不允许", h)
  else if path = "/login" ∧ r.method = "POST" then login p d h r
  else if path = "/enroll" ∧ r.method = "POST" then enroll p d h r
  else if path = "/snapshots" ∧ r.method = "POST" then snapshots p d h r
  else match session p d.now h.db r.cookie with
    | none => (fail 401 "请先登录", h)
    | some u => pages p d h r path u

end CardScope.Hub.Api
