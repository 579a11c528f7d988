import Persatrix.Bytes
import Persatrix.GoValues

/-!
# Accounts and their sessions

A session is found by the hash of its token. Each function is one statement of the database or the
pure part between two statements. Times are whole seconds; a lifetime is in nanoseconds.
-/
namespace Persatrix.Accounts

inductive Role where
  | operator
  | user
deriving DecidableEq

inductive Status where
  | active
  | disabled
deriving DecidableEq

structure Account where
  id : String
  username : String
  role : Role
  participantID : String
  status : Status
deriving DecidableEq

structure Session where
  tokenHash : GoString
  accountID : String
  issuedAt : ℤ
  expiresAt : ℤ
  lastUsedAt : ℤ
  revokedAt : Option ℤ
deriving DecidableEq

structure Store where
  accounts : GoMap String Account := ∅
  sessions : GoMap GoString Session := ∅

def errAccountNotFound : String := "accounts: account not found"

def errUsernameTaken : String := "accounts: username already taken"

def errParticipantBound : String := "accounts: participant already bound to an account"

def errSessionNotFound : String := "accounts: session not found"

def errSessionExpired : String := "accounts: session expired"

def errSessionRevoked : String := "accounts: session revoked"

def errAccountDisabled : String := "accounts: account disabled"

def oneSecond : ℤ := 10 ^ 9

/-- `lastUsedRefreshInterval`, in seconds. -/
def lastUsedRefreshInterval : ℤ := 5 * 60

namespace Store

def getAccount (s : Store) (id : String) : Except String Account :=
  match s.accounts.lookup id with
  | some a => .ok a
  | none => .error errAccountNotFound

/-- The row of a new account, if no constraint of the table is violated. -/
def insertAccount (s : Store) (a : Account) : Except String Store :=
  if (s.accounts.lookup a.id).isSome then .error "accounts: insert"
  else if s.accounts.entries.any fun row => row.2.username = a.username then .error errUsernameTaken
  else if s.accounts.entries.any fun row => row.2.participantID = a.participantID then
    .error errParticipantBound
  else .ok { s with accounts := AList.insert a.id { a with status := .active } s.accounts }

def setAccountStatus (s : Store) (id : String) (status : Status) : Except String Store :=
  match s.accounts.lookup id with
  | some a => .ok { s with accounts := AList.insert id { a with status := status } s.accounts }
  | none => .error errAccountNotFound

/-- What IssueSession checks before it mints a token. -/
def mayIssueSession (s : Store) (accountID : String) (ttl : ℤ) : Except String Unit :=
  if ttl < oneSecond then .error "accounts: session ttl must be at least 1s"
  else
    match s.getAccount accountID with
    | .error err => .error err
    | .ok a => if a.status = .active then .ok () else .error errAccountDisabled

def newSession (tokenHash : GoString) (accountID : String) (ttl now : ℤ) : Session where
  tokenHash := tokenHash
  accountID := accountID
  issuedAt := now
  expiresAt := now + ttl / oneSecond
  lastUsedAt := now
  revokedAt := none

/-- The row of a new session: its hash must be new, and its account must exist. -/
def insertSession (s : Store) (session : Session) : Except String Store :=
  if (s.sessions.lookup session.tokenHash).isSome then .error "accounts: insert session"
  else if (s.accounts.lookup session.accountID).isNone then .error "accounts: insert session"
  else .ok { s with sessions := AList.insert session.tokenHash session s.sessions }

def getSession (s : Store) (tokenHash : GoString) : Except String Session :=
  match s.sessions.lookup tokenHash with
  | some session => .ok session
  | none => .error errSessionNotFound

/-- The first half of ResolveSession: the session's row, and the time that is read after it. -/
def openSession (s : Store) (supplied : GoString) (now : ℤ) : Except String Session :=
  match s.getSession supplied with
  | .error err => .error err
  | .ok session =>
    if supplied ≠ session.tokenHash then .error errSessionNotFound
    else if session.revokedAt.isSome then .error errSessionRevoked
    else if session.expiresAt ≤ now then .error errSessionExpired
    else .ok session

/-- The second half of ResolveSession: the account's row. -/
def boundAccount (s : Store) (session : Session) : Except String Account :=
  match s.getAccount session.accountID with
  | .error err => .error err
  | .ok a => if a.status = .active then .ok a else .error errAccountDisabled

/-- Refreshes the last use of the session when it is stale. -/
def refreshSession (s : Store) (session : Session) (now : ℤ) : Store :=
  if lastUsedRefreshInterval < now - session.lastUsedAt then
    match s.sessions.lookup session.tokenHash with
    | some row =>
      let row := { row with lastUsedAt := now }
      { s with sessions := AList.insert session.tokenHash row s.sessions }
    | none => s
  else s

def revokeSession (s : Store) (tokenHash : GoString) (now : ℤ) : Except String Store :=
  match s.sessions.lookup tokenHash with
  | none => .error errSessionNotFound
  | some row =>
    if row.revokedAt.isSome then .ok s
    else
      let row := { row with revokedAt := some now }
      .ok { s with sessions := AList.insert tokenHash row s.sessions }

def pruneSessions (s : Store) (now : ℤ) : Store :=
  { s with
    sessions := s.sessions.deleteIf fun _ row => row.expiresAt ≤ now || row.revokedAt.isSome }

end Store
end Persatrix.Accounts
