import CardScope.Hub.Http

/-! # The configuration of a client

`setup` redeems a code and writes the configuration, `load` reads it again. A configuration that is
there is never replaced by a new setup.
-/

namespace CardScope.Agent
open Hub

/-- The parts of a parsed URL that `setup` looks at. -/
structure ServerURL where
  scheme : String
  host : String
  user : Bool := false
  query : String := ""
  fragment : String := ""
deriving DecidableEq

structure ConfigFile where
  server : String
  nodeID : String
  token : String
  interval : ℤ
deriving DecidableEq

def validServer (parse : String → Option ServerURL) (server : String) : Bool :=
  (parse server).any (fun u => u.host != "" && (u.scheme == "http" || u.scheme == "https") &&
    !u.user && u.query == "" && u.fragment == "")

def trimSlashes (s : String) : String :=
  String.ofList ((s.toList.reverse.dropWhile (· == '/')).reverse)

/-- What `setup` checks before it asks for a code, and the configuration that it starts from. -/
def prepare (parse : String → Option ServerURL) (existing : Option ConfigFile) (server : String)
    (interval : ℤ) : Except String ConfigFile :=
  if !validServer parse server then .error "invalid server"
  else if interval < 2 ∨ interval > 20 then .error "采样间隔须为 2～20 秒"
  else if existing.isSome then .error "已有配置；请先备份并移走 config.json，再重新接入"
  else .ok ⟨trimSlashes server, "", "", interval⟩

/-- Why a configuration is not loaded: there is no readable file, or what the file says. -/
inductive LoadError where
  | file
  | message (text : String)
deriving DecidableEq

def load : Option ConfigFile → Except LoadError ConfigFile
  | none => .error .file
  | some c =>
    if c.token = "" ∨ c.nodeID = "" then .error (.message "invalid config")
    else if c.interval < 2 ∨ c.interval > 20 then
      .error (.message "采样间隔须为 2～20 秒，请修改 config.json 中的 interval")
    else .ok c

theorem prepare_ok {parse : String → Option ServerURL} {existing : Option ConfigFile}
    {server : String} {interval : ℤ} {c : ConfigFile}
    (h : prepare parse existing server interval = .ok c) :
    existing = none ∧ 2 ≤ c.interval ∧ c.interval ≤ 20 := by
  unfold prepare at h
  split_ifs at h with hserver hinterval hexisting
  cases h
  refine ⟨?_, ?_, ?_⟩
  · simpa using hexisting
  · simp only
    omega
  · simp only
    omega

theorem load_some {c : ConfigFile} (htoken : c.token ≠ "") (hid : c.nodeID ≠ "")
    (hlo : 2 ≤ c.interval) (hhi : c.interval ≤ 20) : load (some c) = .ok c := by
  simp [load, htoken, hid]
  omega

end CardScope.Agent
