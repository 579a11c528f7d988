import Persatrix.AccountStore
import Persatrix.AgentEnrollment
import Persatrix.ChannelMessage
import Persatrix.MembershipStore

/-!
# Who calls, and who is named

Under `auth.mode: enabled` a POST is made by the agent that its token proves, by the account of its
session, or by nobody. The middleware finds out which; the publish route lets a message name only
the caller, and the chat route names the caller itself.
-/
namespace Persatrix.Server
open Accounts Channels Registry Security

/-- The bytes of a text. -/
def utf8 (s : String) : GoString := s.toUTF8.data.toList

structure PublishMessageRequest where
  senderID : String
  content : String
  threadID : String := ""
  mentions : List String := []
  metadata : Metadata := ∅

structure ChatRequest where
  message : String
  userID : String := ""
  chatSessionID : String := ""
  participantType : String := ""

/-- The route of a POST with what its path and its body hold. -/
inductive PostCall where
  | publish (channelID : String) (req : PublishMessageRequest)
  | chat (agentID : String) (req : ChatRequest)

/-- A POST to one of the routes. Names of headers are in their canonical form. -/
structure PostRequest where
  headers : List (String × GoString) := []
  cookies : List (String × GoString) := []
  host : GoString := []
  call : PostCall

namespace PostRequest

def header (r : PostRequest) (name : String) : GoString :=
  ((r.headers.find? fun h => h.1 = name).map (·.2)).getD []

def cookie (r : PostRequest) (name : String) : Option GoString :=
  (r.cookies.find? fun c => c.1 = name).map (·.2)

end PostRequest

/-- An error of the API: its code, the format of its message with what is put in it, and the
status. -/
structure Refusal where
  code : String
  message : String
  status : ℕ
  args : List String
deriving DecidableEq

inductive Transport where
  | bearer
  | cookie
deriving DecidableEq

structure AuthIdentity where
  authenticated : Bool := false
  accountID : String := ""
  username : String := ""
  role : Option Role := none
  participantID : String
  transport : Option Transport := none
  agentID : GoString := []

def defaultPrincipalID : String := "local"

def anonymousIdentity : AuthIdentity := { participantID := defaultPrincipalID }

def sessionCookieName : String := "__Host-persatrix_session"

def agentTokenHeader : String := "X-Agent-Token"

def agentIDHeader : String := "X-Agent-Id"

def bearerPrefix : GoString := ascii "Bearer "

/-- The session token that a request shows. -/
def presentedToken (r : PostRequest) : Option (GoString × Transport) :=
  let h := r.header "Authorization"
  if h ≠ [] then
    if bearerPrefix.isPrefixOf h && bearerPrefix.length < h.length then
      some (h.drop bearerPrefix.length, .bearer)
    else none
  else
    match r.cookie sessionCookieName with
    | some value => if value = [] then none else some (value, .cookie)
    | none => none

/-- `urlHost` is the host of a URL, if it can be parsed. -/
def sameOriginAllowed (urlHost : GoString → Option GoString) (r : PostRequest) : Bool :=
  if r.header "Sec-Fetch-Site" = ascii "same-origin" then true
  else
    let origin := r.header "Origin"
    if origin = [] then false
    else
      match urlHost origin with
      | none => false
      | some host => host ≠ [] && host = r.host

def errAgentTokenNamesAnother : String := "agent token names another agent than X-Agent-ID"

def agentTokenRefusal (err : String) : String :=
  if err = errAgentTokenExpired then "AGENT_TOKEN_EXPIRED"
  else if err = errAgentTokenRevoked then "AGENT_TOKEN_REVOKED"
  else "AGENT_TOKEN_INVALID"

/-- A source past its refusals for the window is told to wait. -/
def refuseAgentToken (allowed : Bool) (refusal : Refusal) : Refusal :=
  if allowed then refusal
  else ⟨"RATE_LIMITED", "too many refused agent tokens from this address", 429, []⟩

/-- The agent that a request proves, which is empty when it shows no token. -/
def checkAgentToken (mac : Mac) (t : AgentTokenIssuer) (r : PostRequest) (now : ClockReading)
    (allowed : Bool) : Except Refusal GoString :=
  let token := r.header agentTokenHeader
  if token = [] then .ok []
  else if (presentedToken r).isSome || r.header "Authorization" ≠ [] then
    .error (refuseAgentToken allowed
      ⟨"BAD_REQUEST", "show an agent token or an account credential, not both", 400, []⟩)
  else
    let named := r.header agentIDHeader
    match t.check mac token now.wall now.running with
    | .error err => .error (refuseAgentToken allowed
        ⟨agentTokenRefusal err, "agent token refused", 401, []⟩)
    | .ok claims =>
      if named ≠ [] && named ≠ claims.agentID then
        .error (refuseAgentToken allowed
          ⟨agentTokenRefusal errAgentTokenNamesAnother, "agent token refused", 401, []⟩)
      else .ok claims.agentID

def accountIdentity (a : Account) (transport : Transport) : AuthIdentity where
  authenticated := true
  accountID := a.id
  username := a.username
  role := some a.role
  participantID := a.participantID
  transport := some transport

inductive RoutePolicy where
  | everyone
  | authenticated
  | operator
deriving DecidableEq

def policyForRequest (r : PostRequest) : RoutePolicy :=
  match r.call with
  | .publish _ _ => .everyone
  | .chat _ _ => .authenticated

def enforcePolicy (r : PostRequest) (ident : AuthIdentity) : Except Refusal AuthIdentity :=
  let required := policyForRequest r
  if required = .everyone then .ok ident
  else if !ident.authenticated then .error ⟨"UNAUTHORIZED", "authentication required", 401, []⟩
  else if required = .authenticated || ident.role = some .operator then .ok ident
  else .error ⟨"FORBIDDEN", "operator role required", 403, []⟩

/-- What the middleware does with an account: a write that a cookie speaks for must come from the
server's own pages. -/
def admitAccount (urlHost : GoString → Option GoString) (r : PostRequest) (a : Account)
    (transport : Transport) : Except Refusal AuthIdentity :=
  if transport = .cookie && !sameOriginAllowed urlHost r then
    .error ⟨"FORBIDDEN", "cross-origin cookie-authenticated request rejected", 403, []⟩
  else enforcePolicy r (accountIdentity a transport)

def participantTypeAgent : String := "agent"

def participantTypeUser : String := "user"

def isValidParticipantType (t : String) : Bool :=
  t = participantTypeAgent || t = participantTypeUser

def stampParticipantType (metadata : Metadata) (t : String) : Metadata :=
  if t = "" then metadata else AList.insert participantTypeMetadataKey (.str t) metadata

/-- Whether a publish names a sender other than its caller. -/
def publishSenderRefused (ident : AuthIdentity) (sender : String) (metadata : Metadata) : Bool :=
  if ident.agentID ≠ [] then utf8 sender ≠ ident.agentID
  else if ident.authenticated then
    let typed := readParticipantType metadata
    !(sender = ident.participantID && (typed = "" || typed = participantTypeUser))
  else true

/-- What the registry says of a sender; a read that fails says nothing. -/
def resolveSenderParticipantType (registry : InMemoryRegistry) (fault : Bool) (sender : String) :
    String :=
  if fault then ""
  else
    match registry.lookup (utf8 sender) with
    | none => participantTypeUser
    | some _ => participantTypeAgent

def channelMaxMentionsPerPublish : ℕ := 10

/-- The message of a publish; `lifted` are the mentions after those in the text are added. -/
def handlePublishMessage (registry : InMemoryRegistry) (ident : AuthIdentity) (channelID : String)
    (req : PublishMessageRequest) (fault : Bool) (lifted : List String) :
    Except Refusal ChannelMessage :=
  if req.senderID = "" then .error ⟨"BAD_REQUEST", "sender_id is required", 400, []⟩
  else if req.content = "" then .error ⟨"BAD_REQUEST", "content is required", 400, []⟩
  else if channelMaxMentionsPerPublish < req.mentions.length then
    .error ⟨"BAD_REQUEST", "mentions: count %d exceeds cap %d", 400,
      [toString req.mentions.length, toString channelMaxMentionsPerPublish]⟩
  else
    let claimed := readParticipantType req.metadata
    if claimed ≠ "" && !isValidParticipantType claimed then
      .error ⟨"BAD_REQUEST", "participant_type %q must be one of [agent, user]", 400, [claimed]⟩
    else if publishSenderRefused ident req.senderID req.metadata then
      .error ⟨"FORBIDDEN", "a publish may name only its caller as sender", 403, []⟩
    else
      let resolved := resolveSenderParticipantType registry fault req.senderID
      .ok {
        channelID := channelID
        senderID := req.senderID
        threadID := req.threadID
        mentions := lifted
        metadata :=
          if resolved = participantTypeAgent || claimed = "" then
            stampParticipantType req.metadata resolved
          else req.metadata }

def chatMaxMessageLength : ℕ := 4000

/-- The message of a chat in the DM; `sessionID` is minted when the request has none. -/
def chatMessage (userID agentID dm : String) (req : ChatRequest) (sessionID : String) :
    ChannelMessage where
  channelID := dm
  senderID := userID
  mentions := [agentID]
  metadata :=
    let sessionID := if req.chatSessionID = "" then sessionID else req.chatSessionID
    let participantType :=
      if req.participantType = "" then participantTypeUser else req.participantType
    stampParticipantType (AList.insert "chat_session_id" (.str sessionID) ∅) participantType

def handleChat (registry : InMemoryRegistry) (ident : AuthIdentity) (agentID : String)
    (req : ChatRequest) (sessionID : String) : Except Refusal ChannelMessage :=
  if req.message = "" then .error ⟨"BAD_REQUEST", "message is required", 400, []⟩
  else if chatMaxMessageLength < req.message.length then
    .error ⟨"BAD_REQUEST", "message exceeds maximum length of 4000 characters", 400, []⟩
  else
    let userID := ident.participantID
    match registry.lookup (utf8 agentID) with
    | none => .error ⟨"NOT_FOUND", "agent not found", 404, []⟩
    | some agent =>
      if agent.status ≠ .healthy then .error ⟨"UNAVAILABLE", "agent is not healthy", 503, []⟩
      else if req.participantType ≠ "" && !isValidParticipantType req.participantType then
        .error ⟨"BAD_REQUEST", "participant_type %q must be one of [agent, user]", 400,
          [req.participantType]⟩
      else
        match Memberships.canonicalDMID userID agentID with
        | .error _ => .error ⟨"BAD_REQUEST", "invalid participant id", 400, []⟩
        | .ok dm => .ok (chatMessage userID agentID dm req sessionID)

/-- The message that a POST would store, if its caller may name its sender. -/
def handlePost (registry : InMemoryRegistry) (ident : AuthIdentity) (call : PostCall) (fault : Bool)
    (lifted : List String) (sessionID : String) : Except Refusal ChannelMessage :=
  match call with
  | .publish channelID req => handlePublishMessage registry ident channelID req fault lifted
  | .chat agentID req => handleChat registry ident agentID req sessionID

def cascadeDepthMetadataKey : String := "cascade_depth"

def previousInteractionIDMetadataKey : String := "previous_interaction_id"

def previousInteractionTriggerMetadataKey : String := "previous_interaction_close_trigger"

/-- What the router decides on a publish: the depth it stamps, if any, the interaction of the
channel and the one before it with what closed that. -/
structure Stamps where
  depth : Option ℤ
  interactionID : String
  previousID : String
  previousTrigger : String

/-- The metadata that publishCommit stores. -/
def Stamps.stamp (s : Stamps) (metadata : Metadata) : Metadata :=
  let metadata :=
    match s.depth with
    | some depth => AList.insert cascadeDepthMetadataKey (.number depth) metadata
    | none => metadata
  let metadata := AList.insert interactionIDMetadataKey (.str s.interactionID) metadata
  let metadata :=
    (metadata.erase previousInteractionIDMetadataKey).erase previousInteractionTriggerMetadataKey
  if s.previousID = "" then metadata
  else
    AList.insert previousInteractionTriggerMetadataKey (.str s.previousTrigger)
      (AList.insert previousInteractionIDMetadataKey (.str s.previousID) metadata)

/-- The message that is stored; without a router it is stored as it is. -/
def commitMessage (stamps : Option Stamps) (msg : ChannelMessage) : ChannelMessage :=
  match stamps with
  | some s => { msg with metadata := s.stamp msg.metadata }
  | none => msg

end Persatrix.Server
