import CardScope.Hub.Http

/-! # Accounts and sessions

A login reads the account, checks the password and inserts a session, in separate
statements and outside the lock of the hub. A password change is one transaction that
also deletes the sessions of the account.
-/

namespace CardScope.Hub
open Library Model

def readAccount (st : Store) (username : String) : Option AccountRow :=
  st.accounts.find? username

/-- The account if the password is right; an unknown account has none. -/
def checkPassword (p : Platform) (account : Option AccountRow) (password : String) :
    Option AccountRow :=
  account.filter (fun a => p.compare a.password password)

/-- Insert a session; none when its hash is taken. -/
def insertSession (st : Store) (s : SessionRow) : Option Store :=
  if h : st.sessions.HasKey s.hash then none
  else some { st with sessions := st.sessions.insert s h }

def newSession (hash username csrf : String) (now : ℤ) : SessionRow where
  hash := hash
  username := username
  csrf := csrf
  expires := now + 12 * 3600000

def initialized (st : Store) : Bool := st.accounts.rows.length ≥ 2

def insertAccount (st : Store) (a : AccountRow) : Option Store :=
  if h : st.accounts.HasKey a.username then none
  else some { st with accounts := st.accounts.insert a h }

/-- Why a hub was not set up: the texts of the checks, a failed hash, a failed insertion. -/
inductive InitError where
  | message (text : String)
  | bcrypt
  | constraint
deriving DecidableEq

def insertAccounts (st : Store) (a v : String) : Option Store := do
  let st ← insertAccount st ⟨"admin", a, "admin"⟩
  insertAccount st ⟨"viewer", v, "viewer"⟩

/-- Set up the two accounts of a hub; `salt` and `salt'` are what bcrypt gives for the passwords. -/
def initializeAccounts (salt salt' : String → Option String) (st : Store) (admin viewer : String) :
    Except InitError Store :=
  if len admin < 10 ∨ len viewer < 10 ∨ len admin > 72 ∨ len viewer > 72 then
    .error (.message "密码须为 10～72 字节")
  else if initialized st then .error (.message "accounts already initialized")
  else match salt admin with
    | none => .error .bcrypt
    | some a => match salt' viewer with
      | none => .error .bcrypt
      | some v => match insertAccounts st a v with
        | none => .error .constraint
        | some st => .ok st

/-- The two accounts, and passwords of 10 to 72 bytes. -/
def validPassword (c : Credentials) : Bool :=
  (c.username == "admin" || c.username == "viewer") &&
    !(len c.password < 10 || len c.password > 72)

/-- The transaction of a password change: the new hash is stored and every session of the account
is deleted. -/
def changePassword (st : Store) (username salted : String) : Store :=
  { st with
    accounts := st.accounts.modify username (fun a => { a with password := salted }) (fun _ => rfl)
    sessions := st.sessions.keep (fun s => s.username ≠ username) }

def logout (st : Store) (hash : String) : Store :=
  { st with sessions := st.sessions.keep (fun s => s.hash ≠ hash) }

structure User where
  name : String
  role : String
  csrf : String
deriving DecidableEq

/-- The user of the cookie: an unexpired session joined with its account. -/
def session (p : Platform) (now : ℤ) (st : Store) (cookie : Option String) : Option User := do
  let value ← cookie
  let s ← st.sessions.find? (p.hash value)
  if s.expires > now then
    let a ← st.accounts.find? s.username
    return ⟨a.username, a.role, s.csrf⟩
  else none

end CardScope.Hub
