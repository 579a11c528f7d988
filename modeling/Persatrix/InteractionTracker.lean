import Persatrix.FactPredicates
import Persatrix.Keyed
import Mathlib.Data.List.DropRight
import Mathlib.Data.Rat.Defs

/-!
# What an interaction is filed under

A record belongs to a scope (a room, a thread, or the conversation with one peer), to a tenant
and to a speaker. A turn that names no tenant gets the one bound around the handling of its
event.
-/
namespace Persatrix.Interactions
open Agents

def groupPrefix : List Char := "group:".toList
def threadPrefix : List Char := "thread:".toList
def dmPrefix : List Char := "dm:".toList

def startsWith (s : String) (pre : List Char) : Bool := pre.isPrefixOf s.toList

def scopeForDm (localAgentID peerID : String) : String :=
  let pair := if peerID < localAgentID then (peerID, localAgentID) else (localAgentID, peerID)
  "dm:" ++ pair.1 ++ ":" ++ pair.2

def scopeForThread (threadID : String) : String :=
  if startsWith threadID threadPrefix then threadID else "thread:" ++ threadID

def scopeForGroup (channelID : String) : String :=
  if startsWith channelID groupPrefix then channelID else "group:" ++ channelID

def isThreadScope (scope : String) : Bool := startsWith scope threadPrefix

inductive ScopeKind where
  | dm | group | thread
deriving DecidableEq

/-- The kind that the declared type names, if it names one. -/
def typeKind (channelType : Option String) : Option ScopeKind :=
  let norm := (strip (channelType.getD "")).toList.map Char.toLower
  if norm = "dm".toList then some .dm
  else if norm = "group".toList then some .group
  else if norm = "thread".toList then some .thread
  else none

def prefixKind (channelID : String) : Option ScopeKind :=
  if startsWith channelID dmPrefix then some .dm
  else if startsWith channelID groupPrefix then some .group
  else if startsWith channelID threadPrefix then some .thread
  else none

/-- A text that is absent or empty. -/
def present (s : Option String) : Option String := s.filter (· ≠ "")

/-- A thread wins; then the declared type of the channel, then the prefix of its id. -/
def scopeForChannelEvent (localAgentID : String) (channelID senderID threadID : Option String)
    (channelType : Option String) : Option String :=
  match present threadID with
  | some thread => some (scopeForThread thread)
  | none =>
    match present channelID with
    | some channel =>
      match (typeKind channelType).or (prefixKind channel) with
      | some .dm => (present senderID).map (scopeForDm localAgentID)
      | some .group => some (scopeForGroup channel)
      | some .thread => some (scopeForThread channel)
      | none => some (scopeForThread channel)
    | none => (present senderID).map (scopeForDm localAgentID)

def defaultPrincipalID : String := "local"

def normalizePrincipalID (value : Option String) : String :=
  let id := strip (value.getD "")
  if id = "" then defaultPrincipalID else id

/-- The principal bound around the event comes first, then the one of the environment. -/
def resolvePrincipalIDSilent (env : String) (bound : Option String) : String :=
  match bound with
  | some p => normalizePrincipalID (some p)
  | none => if strip env = "" then defaultPrincipalID else strip env

structure RecordKey where
  principalID : String
  speakerID : String
  scope : String
deriving DecidableEq

def resolveRecordKey (env : String) (bound : Option String) (scope : String)
    (principalID speakerID : Option String) : RecordKey where
  principalID :=
    match principalID with
    | some p => normalizePrincipalID (some p)
    | none => resolvePrincipalIDSilent env bound
  speakerID := strip (speakerID.getD "")
  scope := scope

/-- What is stripped at both ends has nothing to strip. -/
theorem strip_strip (s : String) : strip (strip s) = strip s := by
  have hfront : ∀ l : List Char, ((l.dropWhile isWhitespace).rdropWhile isWhitespace).dropWhile
      isWhitespace = (l.dropWhile isWhitespace).rdropWhile isWhitespace := by
    intro l
    have hpre := List.rdropWhile_prefix isWhitespace (l.dropWhile isWhitespace)
    cases hl : (l.dropWhile isWhitespace).rdropWhile isWhitespace with
    | nil => rfl
    | cons c cs =>
      rw [hl] at hpre
      obtain ⟨rest, hrest⟩ := hpre
      have hne : l.dropWhile isWhitespace ≠ [] := by
        rw [← hrest]
        exact List.cons_ne_nil _ _
      have hhead := List.head_dropWhile_not isWhitespace hne
      have hc : isWhitespace c = false := by
        simpa only [← hrest, List.cons_append, List.head_cons] using hhead
      exact List.dropWhile_cons_of_neg (by rw [hc]; exact Bool.false_ne_true)
  have hstrip : ∀ t : String, strip t =
      String.ofList ((t.toList.dropWhile isWhitespace).rdropWhile isWhitespace) := fun _ => rfl
  rw [hstrip (strip s), hstrip s, String.toList_ofList, hfront, List.rdropWhile_idempotent]

theorem normalizePrincipalID_normalize (value : Option String) :
    normalizePrincipalID (some (normalizePrincipalID value)) = normalizePrincipalID value := by
  have hdefault : strip defaultPrincipalID = defaultPrincipalID := by decide
  unfold normalizePrincipalID
  dsimp only
  by_cases h : strip (value.getD "") = ""
  · rw [if_pos h, Option.getD_some, hdefault, if_neg (by decide)]
  · rw [if_neg h, Option.getD_some, strip_strip, if_neg h]

theorem normalizePrincipalID_resolve (env : String) (bound : Option String) :
    normalizePrincipalID (some (resolvePrincipalIDSilent env bound)) =
      resolvePrincipalIDSilent env bound := by
  cases bound with
  | some p => exact normalizePrincipalID_normalize _
  | none => exact normalizePrincipalID_normalize (some env)

/-- The halves of a key resolve to themselves, so that a record is opened under the key it is
looked up under. -/
theorem resolveRecordKey_resolve (env : String) (bound : Option String) (scope : String)
    (speakerID : Option String) :
    let key := resolveRecordKey env bound scope none speakerID
    resolveRecordKey env bound scope (some key.principalID) (some key.speakerID) = key := by
  simp only [resolveRecordKey, normalizePrincipalID_resolve, Option.getD_some, strip_strip]

end Persatrix.Interactions

/-!
## What a turn carries

An event of a conversation, and what is kept of it: the payload of the turn, and the fields that
a turn freezes when it is the one that opens its record.
-/
namespace Persatrix.Interactions
open Agents

/-- The value of a flag that an adapter sets; `num` is an integer or a float. -/
inductive FlagValue where
  | bool (b : Bool)
  | str (s : String)
  | num (n : ℚ)
  | other
deriving DecidableEq

/-- The metadata that the turn handler reads. A text is `none` where the key is absent or its
value is no text. -/
structure Metadata where
  /-- The value of `replay_mode` is `True`. -/
  replayMode : Bool
  principalID : Option String
  interactionID : Option String
  /-- As text, empty where it is absent. -/
  previousInteractionID : String
  previousInteractionCloseTrigger : String
  classification : Option String
  senderParticipantType : Option String
  chatEnd : Option FlagValue
  sessionEnd : Option FlagValue
deriving DecidableEq

structure AgentEvent where
  eventType : String
  channelID : Option String
  senderID : Option String
  messageID : Option String
  threadID : Option String
  timestamp : ℚ
  /-- The `channel_type` and the `content` of the payload, where they are texts. -/
  channelType : Option String
  content : Option String
  metadata : Metadata
deriving DecidableEq

/-- An event with the summary of its turn, and what is bound around its handling: a principal or
none, a session and an epoch. -/
structure Arrival where
  event : AgentEvent
  summary : String
  principal : Option String
  sessionID : String
  epochID : String
deriving DecidableEq

def principalIDFromMetadata (m : Metadata) : Option String := present m.principalID

/-- Whether the event was replayed, and whether the replay knew its tenant. -/
def replayMarkers (event : AgentEvent) : Bool × Bool :=
  (event.metadata.replayMode,
    event.metadata.replayMode && (principalIDFromMetadata event.metadata).isSome)

structure Payload where
  summary : String
  eventType : String
  sender : Option String
  channelID : Option String
  timestamp : ℚ
  participantType : String
  messageID : Option String
  text : Option String
  liveDuplicate : Bool
deriving DecidableEq

def buildTurnPayload (event : AgentEvent) (summary : String) (liveDuplicate : Bool) : Payload where
  summary := summary
  eventType := event.eventType
  sender := event.senderID
  channelID := event.channelID
  timestamp := event.timestamp
  participantType := event.metadata.senderParticipantType.getD "agent"
  messageID := present event.messageID
  text := event.content.filter fun c => strip c ≠ ""
  liveDuplicate := liveDuplicate

structure FrozenOpenCapture where
  classification : Option String
  sourceChannelID : Option String
  replayed : Bool
  replayAttributed : Bool
  speakerID : Option String
deriving DecidableEq

def frozenOpenCapture (event : AgentEvent) : FrozenOpenCapture where
  classification := present event.metadata.classification
  sourceChannelID := present event.channelID
  replayed := (replayMarkers event).1
  replayAttributed := (replayMarkers event).2
  speakerID := event.senderID

def sessionEndTruthyStrings : List (List Char) :=
  ["true", "1", "yes", "y", "on"].map String.toList

def FlagValue.truthy : FlagValue → Bool
  | bool b => b
  | str s => sessionEndTruthyStrings.contains ((strip s).toList.map Char.toLower)
  | num n => n ≠ 0
  | other => false

def isSessionEndEvent (event : AgentEvent) : Bool :=
  [event.metadata.chatEnd, event.metadata.sessionEnd].any fun v => v.any FlagValue.truthy

def wireInteractionID (event : AgentEvent) : String := event.metadata.interactionID.getD ""

/-- A reply in a thread carries the id of the floor above it, which says nothing of the thread. -/
def scopeWireAnchor (scope : String) (event : AgentEvent) : String :=
  if isThreadScope scope then "" else wireInteractionID event

end Persatrix.Interactions

/-!
## The interaction tracker

The open records of an agent, one under a key, with what a catch-up pass has noted: the windows
that were cut or have a hole, and the messages that also came in live. The closed records are
handed on, and are kept here in the order in which they were closed.
-/
namespace Persatrix.Interactions

/-- A turn also remembers its event, of which the code keeps the payload alone. -/
structure Turn where
  payload : Payload
  origin : Arrival
deriving DecidableEq

inductive CloseReason where
  | structural | idleGap | maxTurns | topicShift | shutdown | cost | catchupComplete
deriving DecidableEq

/-- The numbers stand for the identifiers drawn at random, and for the identity of the object. -/
structure Interaction where
  interactionID : ℕ
  scope : String
  turns : List Turn := []
  closeReason : Option CloseReason := none
  wireInteractionID : String := ""
  predecessorWireID : String := ""
  sessionID : String
  principalID : String
  speakerID : String
  epochID : String
  replayed : Bool
  replayAttributed : Bool
  replayWindowComplete : Bool := false
  classification : Option String
  sourceChannelID : Option String
deriving DecidableEq

namespace Interaction

def isOpen (r : Interaction) : Bool := r.closeReason.isNone

def key (r : Interaction) : RecordKey := ⟨r.principalID, r.speakerID, r.scope⟩

def append (r : Interaction) (turn : Turn) : Interaction := { r with turns := r.turns ++ [turn] }

def close (r : Interaction) (reason : CloseReason) (complete : Option Bool) : Interaction :=
  { r with
    closeReason := some reason
    replayWindowComplete := complete.getD r.replayWindowComplete }

def stamp (r : Interaction) (wireID predecessorID : String) : Interaction :=
  { r with wireInteractionID := wireID, predecessorWireID := predecessorID }

end Interaction

structure Tracker where
  opened : Keyed Interaction.key
  closed : List Interaction
  nextID : ℕ
  compromisedRecords : List (String × String)
  compromisedChannels : List String
  liveMessageIDs : List String
  replayPassOpen : Bool

/-- What the agent and its process fix: the cap is `none` where no detector has one. -/
structure Config where
  agentID : String
  envPrincipal : String
  maxTurns : Option ℤ

namespace Tracker

def init : Tracker where
  opened := .empty _
  closed := []
  nextID := 0
  compromisedRecords := []
  compromisedChannels := []
  liveMessageIDs := []
  replayPassOpen := true

variable (t : Tracker)

def recordsForScope (scope : String) : List Interaction :=
  t.opened.values.filter fun r => r.scope = scope

def noteReplayedClose (channelID speakerID : String) : Tracker :=
  { t with compromisedRecords := (channelID, speakerID) :: t.compromisedRecords }

/-- A row whose sender cannot be read may belong to any record of the channel. -/
def noteReplayGap (channelID speakerID : String) : Tracker :=
  if speakerID ≠ "" then t.noteReplayedClose channelID speakerID
  else { t with compromisedChannels := channelID :: t.compromisedChannels }

def replayRecordCompromised (channelID speakerID : String) : Bool :=
  t.compromisedChannels.contains channelID || t.compromisedRecords.contains (channelID, speakerID)

/-- A live turn notes its message, a replayed one asks whether it was noted. -/
def observeWireMessage (messageID : String) (replayed : Bool) : Bool × Tracker :=
  if messageID = "" then (false, t)
  else if !replayed then
    (false, if t.replayPassOpen then { t with liveMessageIDs := messageID :: t.liveMessageIDs }
      else t)
  else (t.liveMessageIDs.contains messageID, t)

def clearReplayPassState : Tracker :=
  { t with
    compromisedRecords := []
    compromisedChannels := []
    liveMessageIDs := []
    replayPassOpen := false }

/-- Nothing is closed unless the very record is open under its key. -/
def closeRecord (r : Interaction) (reason : CloseReason) (complete : Option Bool) :
    Option Interaction × Tracker :=
  match t.opened.get r.key with
  | none => (none, t)
  | some current =>
    if current.interactionID ≠ r.interactionID then (none, t)
    else
      let done := current.close reason complete
      let t := { t with opened := t.opened.erase r.key, closed := t.closed ++ [done] }
      (some done,
        if done.replayed && !done.replayWindowComplete then
          t.noteReplayedClose (done.sourceChannelID.getD "") done.speakerID
        else t)

def admittedRecords (scope : String) (admits : Interaction → Bool) : List Interaction :=
  t.opened.values.filter fun r => r.scope = scope && !r.replayed && admits r

def closeScope (scope : String) (reason : CloseReason) (admits : Interaction → Bool) : Tracker :=
  (t.admittedRecords scope admits).foldl (fun t r => (t.closeRecord r reason none).2) t

/-- The open record under the key, or a fresh one. -/
def start (cfg : Config) (scope : String) (a : Arrival) (capture : FrozenOpenCapture)
    (principalID speakerID : Option String) : Interaction × Tracker :=
  let key := resolveRecordKey cfg.envPrincipal a.principal scope principalID speakerID
  match (t.opened.get key).filter Interaction.isOpen with
  | some existing => (existing, t)
  | none =>
    let fresh : Interaction :=
      { interactionID := t.nextID
        scope := scope
        sessionID := if a.sessionID = "" then "legacy" else a.sessionID
        principalID := key.principalID
        speakerID := key.speakerID
        epochID := a.epochID
        replayed := capture.replayed
        replayAttributed := capture.replayAttributed
        classification := capture.classification
        sourceChannelID := capture.sourceChannelID }
    (fresh, { t with opened := t.opened.put fresh, nextID := t.nextID + 1 })

/-- The open record that a turn goes to, opened if there is none. -/
def recordFor (cfg : Config) (scope : String) (a : Arrival) (capture : FrozenOpenCapture) :
    Interaction × Tracker :=
  let key := resolveRecordKey cfg.envPrincipal a.principal scope none capture.speakerID
  match (t.opened.get key).filter Interaction.isOpen with
  | some r => (r, t)
  | none => t.start cfg scope a capture (some key.principalID) (some key.speakerID)

/-- The turn is appended to its record; at the cap the record is closed. -/
def addTurn (cfg : Config) (scope : String) (a : Arrival) (payload : Payload)
    (capture : FrozenOpenCapture) : Interaction × Tracker :=
  let found := t.recordFor cfg scope a capture
  let r := found.1.append { payload := payload, origin := a }
  let t := { found.2 with opened := found.2.opened.put r }
  if cfg.maxTurns.any fun cap => cap ≤ (r.turns.length : ℤ) then
    let closed := t.closeRecord r .maxTurns none
    (closed.1.getD r, closed.2)
  else (r, t)

end Tracker
end Persatrix.Interactions
