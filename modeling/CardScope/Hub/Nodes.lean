import CardScope.Hub.Http

/-! # Node management

Creation and configuration of nodes, and the two credentials of a node: the one-time code that
enrolls it and the token that it uploads with. Every operation holds the lock of the hub. The
operations are also given as the statements that they execute, with their answers.
-/

namespace CardScope.Hub
open Library Model

/-- Why an operation on a node failed. `constraint` is an insert that hit the primary key. -/
inductive NodeError where
  | input (message : String)
  | notFound
  | constraint
deriving DecidableEq

structure NodeEnrollment where
  nodeID : String
  code : String
deriving DecidableEq

/-- The name belongs to another node, compared after trimming and case folding. -/
def nameTaken (p : Platform) (st : Store) (name exceptID : String) : Bool :=
  st.nodes.rows.any (fun n => n.id ≠ exceptID && p.equalFold (trimSpace n.name) name)

def requireNode (st : Store) (id : String) : Except NodeError Unit :=
  if st.nodes.HasKey id then .ok () else .error .notFound

def codeExpiry (now : ℤ) : ℤ := now + 15 * 60000

/-- The identifier of a new node is the first 24 digits of a token. -/
def nodeIDOf (t : Token) : String := String.ofList (t.text.toList.take 24)

def create (p : Platform) (d : Draw) (st : Store) (name : String) :
    Except NodeError (NodeEnrollment × Store) :=
  let name := trimSpace name
  if name = "" ∨ len name > 128 then .error (.input "节点名称无效")
  else if nameTaken p st name "" then .error (.input "节点名称已存在")
  else
    let row : NodeRow := {
      id := nodeIDOf d.first
      name := name
      codeHash := p.hash d.second.text
      codeExpires := codeExpiry d.now
      created := d.now }
    if h : st.nodes.HasKey row.id then .error .constraint
    else .ok (⟨row.id, d.second.text⟩, { st with nodes := st.nodes.insert row h })

/-- Tags are trimmed, refused when empty, too long or not printable, and kept once. -/
def cleanTags : List String → List String → Except NodeError (List String)
  | [], kept => .ok kept
  | tag :: rest, kept =>
    let tag := trimSpace tag
    if tag = "" ∨ tag.length > 32 ∨ tag.toList.any isControl then
      .error (.input "标签须为 1～32 个字符，不能包含控制字符")
    else cleanTags rest (if tag ∈ kept then kept else kept ++ [tag])

/-- Store a row's new settings; absent tags are left as they are. -/
def NodeRow.configured (s : NodeSettings) (name : String) (tags : List String) (n : NodeRow) :
    NodeRow :=
  { n with
    name := name
    expected := s.expected
    networks := s.networks
    tags := if s.tags.isSome then tags else n.tags }

def updateRow (st : Store) (id : String) (f : NodeRow → NodeRow) (hf : ∀ n, (f n).id = n.id) :
    Except NodeError Store :=
  if st.nodes.HasKey id then .ok { st with nodes := st.nodes.modify id f hf } else .error .notFound

def configure (p : Platform) (st : Store) (id : String) (s : NodeSettings) :
    Except NodeError Store :=
  let name := trimSpace s.name
  if name = "" ∨ len name > 128 ∨ s.expected < 0 ∨ s.expected > 128 ∨ s.networks.length > 64 then
    .error (.input "配置无效")
  else if nameTaken p st name id then .error (.input "节点名称已存在")
  else if s.networks.any (fun n => len n > 128) then .error (.input "网卡名称过长")
  else if (s.tags.getD []).length > 20 then .error (.input "每个节点最多 20 个标签")
  else do
    let tags ← cleanTags (s.tags.getD []) []
    updateRow st id (NodeRow.configured s name tags) (fun _ => rfl)

def NodeRow.revoked (n : NodeRow) : NodeRow :=
  { n with tokenHash := "", codeHash := "", codeExpires := 0 }

/-- Neither the token nor a code of the node remains valid. -/
def revoke (st : Store) (id : String) : Except NodeError Store :=
  updateRow st id NodeRow.revoked (fun _ => rfl)

def NodeRow.issued (hash : String) (expires : ℤ) (n : NodeRow) : NodeRow :=
  { n with tokenHash := "", codeHash := hash, codeExpires := expires }

/-- A new code replaces the token of the node. -/
def issueCode (p : Platform) (d : Draw) (st : Store) (id : String) :
    Except NodeError (String × Store) := do
  let st ← updateRow st id (NodeRow.issued (p.hash d.first.text) (codeExpiry d.now)) (fun _ => rfl)
  return (d.first.text, st)

def nodeOfCode (p : Platform) (now : ℤ) (st : Store) (code : String) : Option NodeRow :=
  st.nodes.rows.find? (fun n => n.codeHash = p.hash code && n.codeExpires > now)

def nodeOfToken (p : Platform) (st : Store) (credential : String) : Option NodeRow :=
  st.nodes.rows.find? (fun n => n.tokenHash = p.hash credential)

def NodeRow.enrolled (hash : String) (n : NodeRow) : NodeRow :=
  { n with tokenHash := hash, codeHash := "", codeExpires := 0 }

/-- Redeem a code: the node gets its token and the code is gone. -/
def redeem (p : Platform) (d : Draw) (st : Store) (code : String) :
    Option (String × String × Store) := do
  let n ← nodeOfCode p d.now st code
  let nodes := st.nodes.modify n.id (NodeRow.enrolled (p.hash d.first.text)) (fun _ => rfl)
  return (n.id, d.first.text, { st with nodes := nodes })

/-! ## Calls

Each operation as the statements it executes, with its answer and the store that it leaves. An update
counts the rows it has changed after it was executed; a call that fails has changed none.
-/

/-- An UPDATE of one node and the check of the rows that it affected. -/
def execUpdate (st : Store) (id : String) (f : NodeRow → NodeRow) (hf : ∀ n, (f n).id = n.id) :
    Except NodeError Unit × Store :=
  let count := st.nodes.rows.countP (fun n => n.id = id)
  (if count = 0 then .error .notFound else .ok (),
    { st with nodes := st.nodes.modify id f hf })

def execInsert (st : Store) (row : NodeRow) : Except NodeError Unit × Store :=
  if h : st.nodes.HasKey row.id then (.error .constraint, st)
  else (.ok (), { st with nodes := st.nodes.insert row h })

inductive NodeCall where
  | create (name : String)
  | configure (id : String) (settings : NodeSettings)
  | issueCode (id : String)
  | revoke (id : String)
deriving DecidableEq

def nodeCall (p : Platform) (st : Store) : Draw × NodeCall → Except NodeError Unit × Store
  | (d, .create name) =>
    let name := trimSpace name
    if name = "" ∨ len name > 128 then (.error (.input "节点名称无效"), st)
    else if nameTaken p st name "" then (.error (.input "节点名称已存在"), st)
    else execInsert st {
      id := nodeIDOf d.first
      name := name
      codeHash := p.hash d.second.text
      codeExpires := codeExpiry d.now
      created := d.now }
  | (_, .configure id s) =>
    let name := trimSpace s.name
    if name = "" ∨ len name > 128 ∨ s.expected < 0 ∨ s.expected > 128 ∨ s.networks.length > 64 then
      (.error (.input "配置无效"), st)
    else if nameTaken p st name id then (.error (.input "节点名称已存在"), st)
    else if s.networks.any (fun n => len n > 128) then (.error (.input "网卡名称过长"), st)
    else if (s.tags.getD []).length > 20 then (.error (.input "每个节点最多 20 个标签"), st)
    else match cleanTags (s.tags.getD []) [] with
      | .error e => (.error e, st)
      | .ok tags => execUpdate st id (NodeRow.configured s name tags) (fun _ => rfl)
  | (d, .issueCode id) =>
    execUpdate st id (NodeRow.issued (p.hash d.first.text) (codeExpiry d.now)) (fun _ => rfl)
  | (_, .revoke id) => execUpdate st id NodeRow.revoked (fun _ => rfl)

def nodeCalls (p : Platform) (st : Store) (calls : List (Draw × NodeCall)) : Store :=
  calls.foldl (fun st c => (nodeCall p st c).2) st

/-- An operation as a call: a failure leaves the store as it is. -/
def answered (st : Store) : Except NodeError Store → Except NodeError Unit × Store
  | .ok st' => (.ok (), st')
  | .error e => (.error e, st)

theorem answered_error {st : Store} {r : Except NodeError Store} {e : NodeError}
    (h : (answered st r).1 = .error e) : (answered st r).2 = st := by
  cases r with
  | ok st' => cases h
  | error e' => rfl

def nodeOperation (p : Platform) (st : Store) : Draw × NodeCall → Except NodeError Store
  | (d, .create name) => (create p d st name).map Prod.snd
  | (_, .configure id s) => configure p st id s
  | (d, .issueCode id) => (issueCode p d st id).map Prod.snd
  | (_, .revoke id) => revoke st id

theorem execUpdate_eq (st : Store) (id : String) (f : NodeRow → NodeRow)
    (hf : ∀ n, (f n).id = n.id) :
    execUpdate st id f hf = answered st (updateRow st id f hf) := by
  simp only [execUpdate, updateRow]
  by_cases h : st.nodes.HasKey id
  · obtain ⟨n, hn, hid⟩ := h
    have hcount : st.nodes.rows.countP (fun n => n.id = id) ≠ 0 := by
      rw [ne_eq, List.countP_eq_zero]
      exact fun hnone => hnone n hn (by simpa using hid)
    rw [if_neg hcount, if_pos ⟨n, hn, hid⟩]
    rfl
  · have hcount : st.nodes.rows.countP (fun n => n.id = id) = 0 := by
      rw [List.countP_eq_zero]
      exact fun n hn hid => h ⟨n, hn, by simpa using hid⟩
    rw [if_pos hcount, if_neg h, Table.modify_of_not_hasKey _ f hf h]
    rfl

theorem nodeCall_eq (p : Platform) (st : Store) (c : Draw × NodeCall) :
    nodeCall p st c = answered st (nodeOperation p st c) := by
  obtain ⟨d, c⟩ := c
  cases c with
  | create name =>
    simp only [nodeCall, nodeOperation, create, execInsert]
    split_ifs <;> rfl
  | configure id s =>
    simp only [nodeCall, nodeOperation, configure]
    split_ifs
    · rfl
    · rfl
    · rfl
    · rfl
    · cases cleanTags (s.tags.getD []) [] with
      | error e => rfl
      | ok tags => exact execUpdate_eq st id _ _
  | issueCode id =>
    refine (execUpdate_eq st id (NodeRow.issued (p.hash d.first.text) (codeExpiry d.now))
      (fun _ => rfl)).trans ?_
    simp only [nodeOperation, issueCode]
    cases updateRow st id (NodeRow.issued (p.hash d.first.text) (codeExpiry d.now))
      (fun _ => rfl) <;> rfl
  | revoke id => exact execUpdate_eq st id _ _

end CardScope.Hub
