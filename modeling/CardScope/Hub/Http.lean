import CardScope.Hub.Store
import CardScope.Hub.Validation

/-! # Requests and responses

What the handlers read of a request and what they answer. Values that the clock, the random
source or bcrypt give to a request are drawn before it; other packages are parameters.
-/

namespace CardScope.Hub
open Library Model

/-- 32 random bytes in hexadecimal. -/
structure Token where
  text : String
  size : len text = 64
deriving DecidableEq

/-- A token of 64 times the same character; zeros when the character takes more than one byte. -/
def Token.replicate (c : Char) : Token :=
  if h : len (String.ofList (List.replicate 64 c)) = 64 then ⟨_, h⟩
  else ⟨String.ofList (List.replicate 64 '0'), by decide +kernel⟩

structure Credentials where
  username : String := ""
  password : String := ""
deriving DecidableEq

/-- The body of a node configuration; older clients omit the tags. -/
structure NodeSettings where
  name : String := ""
  expected : ℤ := 0
  networks : List String := []
  tags : Option (List String) := none
deriving DecidableEq

/-- Strict decoders: one JSON object without unknown fields or trailing data. -/
structure Decoders where
  credentials : String → Option Credentials
  code : String → Option String
  name : String → Option String
  settings : String → Option NodeSettings
  loginCopy : String → Option LoginCopy
  snapshot : String → Option Snapshot

/-- The packages that the hub relies on. -/
structure Platform where
  /-- SHA-256 in hexadecimal. -/
  hash : String → String
  /-- bcrypt accepts the password for the stored hash. -/
  compare : String → String → Bool
  /-- Equality under Unicode case folding. -/
  equalFold : String → String → Bool
  toLower : String → String
  /-- Scheme and host of a URL that can be parsed. -/
  parseURL : String → Option (String × String)
  /-- A number with that many decimals. -/
  fixed : ℕ → ℚ → String
  json : Decoders

/-- A platform for texts of ASCII letters; passwords are stored as they are. -/
def ascii : Platform where
  hash := id
  compare := fun stored password => stored == password
  equalFold := fun a b => a.toList.map Char.toLower == b.toList.map Char.toLower
  toLower := String.toLower
  parseURL := fun _ => none
  fixed := fun _ q => toString q
  json := ⟨fun _ => none, fun _ => none, fun _ => none, fun _ => none, fun _ => none,
    fun _ => none⟩

/-- What one request draws: a clock reading, up to two tokens and a salted password hash. -/
structure Draw where
  now : ℤ
  first : Token
  second : Token
  salted : String → Option String

/-- The parts of a request that handlers read. An absent header is empty. -/
structure Request where
  method : String
  path : String
  host : String := ""
  ip : String := ""
  tls : Bool := false
  origin : String := ""
  cookie : Option String := none
  csrf : String := ""
  authorization : String := ""
  contentType : String := ""
  body : String := ""
  query : String → String := fun _ => ""

/-- The session cookie that a response sets; an empty value of negative age deletes it. -/
structure Cookie where
  value : String
  maxAge : ℤ
  secure : Bool := false
deriving DecidableEq

/-- Decode a body of at most `max` bytes. -/
def decode {α : Type} (parse : String → Option α) (r : Request) (max : ℕ) : Option α :=
  if r.contentType.startsWith "application/json" ∧ len r.body ≤ max then parse r.body else none

def trimPrefix (s : String) (pre : String) : String := (s.dropPrefix pre).toString

def split (s : String) : List String := (s.toList.splitOn '/').map String.ofList

def isSpace (c : Char) : Bool :=
  c.val ∈ [0x09, 0x0A, 0x0B, 0x0C, 0x0D, 0x20, 0x85, 0xA0, 0x1680, 0x2028, 0x2029, 0x202F, 0x205F,
    0x3000] || (0x2000 ≤ c.val && c.val ≤ 0x200A)

def trimSpace (s : String) : String :=
  String.ofList (((s.toList.dropWhile isSpace).reverse.dropWhile isSpace).reverse)

def isControl (c : Char) : Bool := c.val ≤ 0x1F || (0x7F ≤ c.val && c.val ≤ 0x9F)

/-- Browsers name the origin of a request, command line clients do not. -/
def sameOrigin (p : Platform) (r : Request) : Bool :=
  r.origin == "" || (p.parseURL r.origin).any (fun u =>
    u.2 == r.host && (u.1 == "http" || u.1 == "https"))

end CardScope.Hub
