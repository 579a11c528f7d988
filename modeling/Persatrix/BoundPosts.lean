import Persatrix.AgentEnrollmentRuns
import Persatrix.Callers

/-!
# POSTs beside changes of agents and accounts

A POST goes from one access of a shared table to the next, and anything may happen between two of
them. The log says what became of agents, accounts and sessions, and when a POST looked at them.
-/
namespace Persatrix.Server
open Accounts Channels Registry Security

/-- How far a POST has come. -/
inductive PostStage where
  | arrived
  | tokenChecked (agentID : GoString)
  | sessionRead (agentID : GoString) (session : Session) (transport : Transport) (now : ℤ)
  | identified (ident : AuthIdentity)
  | composed (msg : ChannelMessage)
  | refused (refusal : Refusal)
  | stored (msg : ChannelMessage)

structure Post where
  request : PostRequest
  stage : PostStage := .arrived

/-- `issuing` are the logins whose account was looked up and whose session is not yet stored. -/
structure PostState where
  agents : EnrollmentState := ⟨{}, none⟩
  store : Accounts.Store := {}
  issuing : List (String × ℤ) := []
  posts : List Post := []
  messages : List ChannelMessage := []

inductive AccountEvent where
  | create (a : Account)
  | setStatus (id : String) (status : Status)
  | beginIssue (accountID : String) (ttl : ℤ)
  | finishIssue (login : ℕ) (token : GoString) (now : ℤ)
  | revoke (token : GoString) (now : ℤ)
  | prune (now : ℤ)

/-- A read may have a fault; any other check of a POST may end it. -/
inductive PostAction where
  | checkToken (now : ClockReading) (allowed : Bool)
  | readSession (fault : Bool) (now : ℤ)
  | readAccount (fault refreshed : Bool)
  | handle (fault : Bool) (lifted : List String) (sessionID : String)
  | commit (stamps : Option Stamps)
  | fail (refusal : Refusal)

inductive PostEvent where
  | agents (e : EnrollmentEvent)
  | accounts (e : AccountEvent)
  | arrive (r : PostRequest)
  | act (post : ℕ) (action : PostAction)

/-- What is noted of a run. -/
inductive PostNote where
  | agents (n : EnrollmentNote)
  | created (a : Account)
  | statusSet (id : String) (status : Status)
  | issued (token : GoString) (accountID : String) (expiresAt : ℤ)
  | revoked (token : GoString)
  | tokenChecked (post : ℕ) (now : ClockReading)
  | sessionRead (post : ℕ) (now : ℤ)
  | accountRead (post : ℕ)
  | registered (post : ℕ) (holds : Bool)
  | stored (post : ℕ) (msg : ChannelMessage)

section
variable (mac : Mac) (hash : GoString → GoString) (urlHost : GoString → Option GoString)

def settled : Except Refusal AuthIdentity → PostStage
  | .ok ident => .identified ident
  | .error refusal => .refused refusal

/-- A POST without an account. -/
def withoutAccount (r : PostRequest) (agentID : GoString) : PostStage :=
  settled (enforcePolicy r { anonymousIdentity with agentID := agentID })

def checkTokenStage (t : AgentTokenIssuer) (r : PostRequest) (now : ClockReading) (allowed : Bool) :
    PostStage :=
  match checkAgentToken mac t r now allowed with
  | .error refusal => .refused refusal
  | .ok agentID =>
    match presentedToken r with
    | none => withoutAccount r agentID
    | some _ => .tokenChecked agentID

def readSessionStage (store : Accounts.Store) (r : PostRequest) (agentID : GoString) (fault : Bool)
    (now : ℤ) : PostStage :=
  match presentedToken r with
  | none => withoutAccount r agentID
  | some (token, transport) =>
    if fault then withoutAccount r agentID
    else
      match store.openSession (hash token) now with
      | .error _ => withoutAccount r agentID
      | .ok session => .sessionRead agentID session transport now

def readAccountStage (store : Accounts.Store) (r : PostRequest) (agentID : GoString)
    (session : Session) (transport : Transport) (fault : Bool) : PostStage :=
  if fault then withoutAccount r agentID
  else
    match store.boundAccount session with
    | .error _ => withoutAccount r agentID
    | .ok a => settled (admitAccount urlHost r a transport)

def handleStage (registry : InMemoryRegistry) (r : PostRequest) (ident : AuthIdentity)
    (fault : Bool) (lifted : List String) (sessionID : String) : PostStage :=
  match handlePost registry ident r.call fault lifted sessionID with
  | .error refusal => .refused refusal
  | .ok msg => .composed msg

def PostStage.isOver : PostStage → Bool
  | .refused _ => true
  | .stored _ => true
  | _ => false

/-- The stage that an action of a POST leads to. -/
def nextStage (s : PostState) (p : Post) (action : PostAction) : Option PostStage :=
  match action with
  | .checkToken now allowed =>
    match p.stage with
    | .arrived => some (checkTokenStage mac s.agents.store.issuer p.request now allowed)
    | _ => none
  | .readSession fault now =>
    match p.stage with
    | .tokenChecked agentID => some (readSessionStage hash s.store p.request agentID fault now)
    | _ => none
  | .readAccount fault _ =>
    match p.stage with
    | .sessionRead agentID session transport _ =>
      some (readAccountStage urlHost s.store p.request agentID session transport fault)
    | _ => none
  | .handle fault lifted sessionID =>
    match p.stage with
    | .identified ident =>
      some (handleStage s.agents.store.registry p.request ident fault lifted sessionID)
    | _ => none
  | .commit stamps =>
    match p.stage with
    | .composed msg => some (.stored (commitMessage stamps msg))
    | _ => none
  | .fail refusal => if p.stage.isOver then none else some (.refused refusal)

/-- What an action leaves of the accounts: a session that was resolved may be refreshed. -/
def Post.touch (store : Accounts.Store) (p : Post) (action : PostAction) : Accounts.Store :=
  match action, p.stage with
  | .readAccount false true, .sessionRead _ session _ now =>
    match store.boundAccount session with
    | .ok _ => store.refreshSession session now
    | .error _ => store
  | _, _ => store

def PostStage.sent : PostStage → List ChannelMessage
  | .stored msg => [msg]
  | _ => []

def PostState.advance (s : PostState) (i : ℕ) (p : Post) (action : PostAction) (stage : PostStage) :
    PostState :=
  { s with
    store := p.touch s.store action
    posts := s.posts.set i { p with stage := stage }
    messages := s.messages ++ stage.sent }

def stepAccounts (s : PostState) : AccountEvent → Option PostState
  | .create a =>
    match s.store.insertAccount a with
    | .ok store => some { s with store := store }
    | .error _ => some s
  | .setStatus id status =>
    match s.store.setAccountStatus id status with
    | .ok store => some { s with store := store }
    | .error _ => some s
  | .beginIssue accountID ttl =>
    match s.store.mayIssueSession accountID ttl with
    | .ok _ => some { s with issuing := s.issuing ++ [(accountID, ttl)] }
    | .error _ => some s
  | .finishIssue login token now =>
    match s.issuing[login]? with
    | none => none
    | some (accountID, ttl) =>
      match s.store.insertSession (Store.newSession (hash token) accountID ttl now) with
      | .ok store => some { s with store := store, issuing := s.issuing.eraseIdx login }
      | .error _ => some { s with issuing := s.issuing.eraseIdx login }
  | .revoke token now =>
    match s.store.revokeSession (hash token) now with
    | .ok store => some { s with store := store }
    | .error _ => some s
  | .prune now => some { s with store := s.store.pruneSessions now }

def noteAccounts (s : PostState) : AccountEvent → List PostNote
  | .create a =>
    match s.store.insertAccount a with
    | .ok _ => [.created { a with status := .active }]
    | .error _ => []
  | .setStatus id status =>
    match s.store.setAccountStatus id status with
    | .ok _ => [.statusSet id status]
    | .error _ => []
  | .finishIssue login token now =>
    match s.issuing[login]? with
    | none => []
    | some (accountID, ttl) =>
      match s.store.insertSession (Store.newSession (hash token) accountID ttl now) with
      | .ok _ => [.issued token accountID (now + ttl / oneSecond)]
      | .error _ => []
  | .revoke token _ => [.revoked token]
  | _ => []

def postSystem : System PostState PostEvent where
  init := {}
  step s
    | .agents e => ((enrollmentSystem mac).step s.agents e).map fun agents =>
      { s with agents := agents }
    | .accounts e => stepAccounts hash s e
    | .arrive r => some { s with posts := s.posts ++ [{ request := r }] }
    | .act i action =>
      match s.posts[i]? with
      | none => none
      | some p =>
        (nextStage mac hash urlHost s p action).map fun stage => s.advance i p action stage

/-- What is noted of an action that led to a stage. -/
def noteAction (registry : InMemoryRegistry) (i : ℕ) (action : PostAction) (stage : PostStage) :
    List PostNote :=
  match action, stage with
  | .checkToken now _, _ => [.tokenChecked i now]
  | .readSession _ now, _ => [.sessionRead i now]
  | .readAccount _ _, _ => [.accountRead i]
  | .handle _ _ _, .composed msg => [.registered i (registry.lookup (utf8 msg.senderID)).isSome]
  | .commit _, .stored msg => [.stored i msg]
  | _, _ => []

def postNotes (s : PostState) (e : PostEvent) (t : PostState) : List PostNote :=
  match e with
  | .agents e => (enrollmentNotes mac s.agents e t.agents).map .agents
  | .accounts e => noteAccounts hash s e
  | .arrive _ => []
  | .act i action =>
    match t.posts[i]? with
    | none => []
    | some p => noteAction s.agents.store.registry i action p.stage

end

/-! ### What a log says -/

def agentNotes (log : List PostNote) : List EnrollmentNote :=
  log.filterMap fun
    | .agents n => some n
    | _ => none

/-- The agent tokens issued and revoked so far. -/
def agentDeeds (log : List PostNote) : List Deed := deedsOf (agentNotes log)

structure SessionGrant where
  accountID : String
  expiresAt : ℤ

/-- What a note tells of a session token. -/
def grantAfter (token : GoString) (held : Option SessionGrant) : PostNote → Option SessionGrant
  | .issued other accountID expiresAt =>
    if other = token then some ⟨accountID, expiresAt⟩ else held
  | .revoked other => if other = token then none else held
  | _ => held

/-- The latest issue of a session token, unless it was revoked since. -/
def sessionOf (token : GoString) (log : List PostNote) : Option SessionGrant :=
  log.foldl (grantAfter token) none

def accountAfter (id : String) (held : Option Account) : PostNote → Option Account
  | .created a => if a.id = id then some a else held
  | .statusSet other status =>
    if other = id then held.map fun a => { a with status := status } else held
  | _ => held

def accountOf (id : String) (log : List PostNote) : Option Account :=
  log.foldl (accountAfter id) none

/-- The request shows the session token: `Authorization` goes before the cookie, which counts only
when there is no such header. -/
def Shows (r : PostRequest) (token : GoString) : Prop :=
  token ≠ [] ∧ (r.header "Authorization" = bearerPrefix ++ token ∨
    r.header "Authorization" = [] ∧ r.cookie sessionCookieName = some token)

/-- When the POST's agent token was checked it was the one issued last for the agent, neither
revoked nor expired; the request shows no account credential and names no other agent. -/
structure ProvedAgent (log : List PostNote) (post : ℕ) (r : PostRequest) (agent : GoString) :
    Prop where
  checked : ∃ earlier now later g, log = earlier ++ .tokenChecked post now :: later ∧
    heldBy agent (agentDeeds earlier) = some g ∧ r.header agentTokenHeader = g.token ∧
    now.wall < g.payload.expires ∧ now.running < g.payload.runningExpires
  alone : r.header "Authorization" = [] ∧ ∀ token, ¬Shows r token
  named : r.header agentIDHeader = [] ∨ r.header agentIDHeader = agent

/-- The request shows a token of a session of the account that was issued, neither revoked nor
expired when the session was read, and the account was active when it was read. -/
def ProvedAccount (log : List PostNote) (post : ℕ) (r : PostRequest) (a : Account) : Prop :=
  ∃ token earlier now between later expiresAt,
    log = earlier ++ .sessionRead post now :: (between ++ .accountRead post :: later) ∧
    Shows r token ∧ sessionOf token earlier = some ⟨a.id, expiresAt⟩ ∧ now < expiresAt ∧
    accountOf a.id (earlier ++ .sessionRead post now :: between) = some a ∧ a.status = .active

/-- The message speaks for the caller of the POST. -/
inductive BoundTo (log : List PostNote) (post : ℕ) (r : PostRequest) (msg : ChannelMessage) : Prop
  | agent (hproved : ProvedAgent log post r (utf8 msg.senderID))
  | account (a : Account) (hsender : msg.senderID = a.participantID)
      (hproved : ProvedAccount log post r a)
      (htype : readParticipantType msg.metadata = participantTypeAgent →
        .registered post true ∈ log)

def sentIn (log : List PostNote) : List ChannelMessage :=
  log.filterMap fun
    | .stored _ msg => some msg
    | _ => none

/-- The messages are those that POSTs stored, and each speaks for the caller of its POST. -/
structure AllBound (s : PostState) (log : List PostNote) : Prop where
  sent : s.messages = sentIn log
  bound : ∀ earlier i msg later, log = earlier ++ .stored i msg :: later →
    ∃ p, s.posts[i]? = some p ∧ BoundTo earlier i p.request msg

/-- No signature is forged, and no two session tokens have one hash. -/
def Assumed (mac : Mac) (hash : GoString → GoString) (q : PostState × List PostNote) :
    PostEvent → Prop
  | .act i (.checkToken _ _) => ∀ p, q.1.posts[i]? = some p →
      Unforged mac (agentDeeds q.2) (p.request.header agentTokenHeader)
  | .act i (.readSession _ _) => ∀ p token transport, q.1.posts[i]? = some p →
      presentedToken p.request = some (token, transport) →
      ∀ other accountID expiresAt, .issued other accountID expiresAt ∈ q.2 →
        hash other = hash token → other = token
  | _ => True

/-- A serial number is left for an issue, and a chat claims the type of an agent only when the
registry holds its caller. -/
def Proper (s : PostState) : PostEvent → Prop
  | .agents e => SerialFits s.agents e
  | .act i (.handle _ _ _) => ∀ p ident agentID req, s.posts[i]? = some p →
      p.stage = .identified ident → p.request.call = .chat agentID req →
      req.participantType = participantTypeAgent →
      (s.agents.store.registry.lookup (utf8 ident.participantID)).isSome = true
  | _ => True

end Persatrix.Server
