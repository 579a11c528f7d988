import Persatrix.GoValues
import Persatrix.ChannelMessage

/-!
# The response gate of an agent

An event carries a payload of dynamically typed values. The tests of the gate are strict:
a flag counts only if it is the value `True`, a list only if it is a list.
-/
namespace Persatrix.Agents

inductive PyValue where
  | none
  | bool (b : Bool)
  | str (s : String)
  | list (items : List PyValue)
  | other (truthy : Bool)

namespace PyValue

def truthy : PyValue → Bool
  | .none => false
  | .bool b => b
  | .str s => !s.isEmpty
  | .list items => !items.isEmpty
  | .other t => t

def isTrue : PyValue → Bool
  | .bool b => b
  | _ => false

def isStr (s : String) : PyValue → Bool
  | .str t => t == s
  | _ => false

/-- `s in items` for a string `s`. -/
def contains (items : List PyValue) (s : String) : Bool := items.any (isStr s)

end PyValue

abbrev Payload := GoMap String PyValue

inductive EventType where
  | taskAssigned
  | channelMessage
  | mention
  | subAgentCompleted
  | approvalRequested
  | approvalResponse
  | tick
  | agentJoined
  | agentLeft
deriving DecidableEq

structure AgentEvent where
  eventType : EventType
  payload : Payload
  channelID : Option String
  senderID : Option String
  threadID : Option String

structure GateDecision where
  respond : Bool
  policy : String
  reason : String
deriving DecidableEq

def policyWhenMentioned : String := "when_mentioned"
def policyAlways : String := "always"
def policyNever : String := "never"
def policyParticipant : String := "participant"
def policyAddressed : String := "addressed"
def policyObserver : String := "observer"
def policyChair : String := "chair"
def policyDefenseInDepth : String := "defense_in_depth"
def policyUnknown : String := "unknown"
def mentionEveryone : String := "@everyone"
def dmChannelPrefix : String := "dm:"

def dispositionAliases : List (String × String) :=
  [(policyParticipant, policyAlways), (policyChair, policyAlways),
    (policyAddressed, policyWhenMentioned), (policyObserver, policyNever)]

def forcedTurnMarkers : List String := ["chair_escalation", "convene", "synthesis_turn"]

def startsWith (s start : String) : Bool := start.toList.isPrefixOf s.toList

/-- `payload.get(key) is True`. -/
def flag (payload : Payload) (key : String) : Bool :=
  ((payload.lookup key).getD .none).isTrue

/-- `payload.get("mentions") or []`. -/
def mentionsOf (payload : Payload) : PyValue :=
  let mentions := (payload.lookup "mentions").getD .none
  if mentions.truthy then mentions else .list []

def canonicalPolicy (payload : Payload) : String :=
  let policy := match payload.lookup "respond_policy" with
    | some (.str s) => s
    | _ => ""
  (dispositionAliases.lookup policy).getD policy

/-- The mentions that an unnamed member yields to. -/
def suppressionBasis (payload : Payload) (mentions : List PyValue) : List PyValue :=
  if flag payload "floor_mentions_resolved" then
    match payload.lookup "floor_mentions" with
    | some (.list floorMentions) => floorMentions
    | _ => mentions
  else mentions

def alwaysDecision (payload : Payload) (agentID : String) : GateDecision :=
  match mentionsOf payload with
  | .list mentions =>
    if mentions.isEmpty then ⟨true, policyAlways, "policy_always"⟩
    else if PyValue.contains mentions agentID then ⟨true, policyAlways, "mentioned"⟩
    else if PyValue.contains mentions mentionEveryone then ⟨true, policyAlways, "broadcast"⟩
    else if (suppressionBasis payload mentions).isEmpty then
      ⟨true, policyAlways, "policy_always"⟩
    else ⟨false, policyAlways, "directed_elsewhere"⟩
  | _ => ⟨true, policyAlways, "policy_always"⟩

def whenMentionedDecision (event : AgentEvent) (agentID : String) : GateDecision :=
  let mentioned := match mentionsOf event.payload with
    | .list mentions => PyValue.contains mentions agentID
    | _ => false
  if mentioned then ⟨true, policyWhenMentioned, "mentioned"⟩
  else
    let threadParentSenderID :=
      (event.payload.lookup "thread_parent_sender_id").getD (.str "")
    if (event.threadID.getD "" ≠ "") ∧ threadParentSenderID.isStr agentID then
      ⟨true, policyWhenMentioned, "thread_reply_to_self"⟩
    else ⟨false, policyWhenMentioned, "not_mentioned"⟩

def evaluateResponseGate (event : AgentEvent) (agentID : String) : GateDecision :=
  if event.eventType ≠ .channelMessage then ⟨true, "", "not_channel_message"⟩
  else
    let channelID := event.channelID.getD ""
    if channelID = "" then ⟨true, "", "no_channel_id"⟩
    else
      let payload := event.payload
      let policy := canonicalPolicy payload
      if startsWith channelID dmChannelPrefix then
        if event.senderID = some agentID then ⟨false, policyDefenseInDepth, "dm_self_sender"⟩
        else if flag payload "interaction_close_notification" then
          ⟨false, policyAlways, "close_notification"⟩
        else ⟨true, policyAlways, "dm"⟩
      else if flag payload "interaction_close_notification" then
        ⟨false,
          if policy ∈ [policyAlways, policyWhenMentioned, policyNever] then policy
          else policyUnknown,
          "close_notification"⟩
      else if event.senderID = some agentID then ⟨false, policyDefenseInDepth, "self_sender"⟩
      else if policy = policyNever then ⟨false, policyNever, "policy_never"⟩
      else
        match forcedTurnMarkers.find? fun marker =>
            flag payload marker && policy ∈ [policyAlways, policyWhenMentioned] with
        | some marker => ⟨true, policy, marker⟩
        | none =>
          if policy = policyAlways then alwaysDecision payload agentID
          else if policy = policyWhenMentioned then whenMentionedDecision event agentID
          else ⟨false, policyUnknown, "unknown_policy"⟩

end Persatrix.Agents

/-!
## The floor round and the response gate

The router splits the members of a channel into the responders of a round and the others,
who are only delivered to. An agent decides again, from what it is delivered, whether it
responds. Both read the respond policy through the same aliases.
-/
namespace Persatrix.Channels
open Persatrix.Agents

def respondWhenMentioned : String := "when_mentioned"
def respondAlways : String := "always"
def respondNever : String := "never"
def respondParticipant : String := "participant"
def respondAddressed : String := "addressed"
def respondObserver : String := "observer"
def respondChair : String := "chair"
def mentionEveryone : String := "@everyone"

/-- `RespondPolicy.Normalize`. -/
def normalize (p : String) : String :=
  if p = respondParticipant ∨ p = respondChair then respondAlways
  else if p = respondAddressed then respondWhenMentioned
  else if p = respondObserver then respondNever
  else p

def isAlphanumeric (c : Char) : Bool :=
  ('A' ≤ c && c ≤ 'Z') || ('a' ≤ c && c ≤ 'z') || ('0' ≤ c && c ≤ '9')

/-- `^[A-Za-z0-9][A-Za-z0-9_-]*$`. -/
def validateParticipantID (id : String) : Bool :=
  match id.toList with
  | [] => false
  | c :: rest => isAlphanumeric c && rest.all fun c => isAlphanumeric c || c = '_' || c = '-'

/-- The store admits only valid participant ids. -/
structure Member where
  participantID : String
  respondPolicy : String
  valid : validateParticipantID participantID = true

def resolveFloorMentions (members : List Member) (mentions : List String) (senderID : String) :
    List String :=
  let capable := (members.filter fun m =>
    m.participantID ≠ senderID && normalize m.respondPolicy ≠ respondNever).map
      Member.participantID
  (mentions.foldl (fun (out : List String × List String) id =>
    if id ∈ out.2 then (out.1 ++ [id], out.2.filter (· ≠ id)) else out) ([], capable)).1

/-- `getMessage` answers with the sender of a stored message. -/
def resolveThreadParentSenderID (getMessage : String → Option String) (msg : ChannelMessage) :
    String :=
  if msg.threadID = "" then "" else (getMessage msg.threadID).getD ""

structure RoundSplit where
  mentioned : List Member := []
  unmentioned : List Member := []
  nonResponders : List Member := []

def isCandidate (policy participantID : String) (isMentioned directed : Bool)
    (threadParentSenderID : String) : Bool :=
  if policy = respondAlways then isMentioned || !directed
  else if policy = respondWhenMentioned then
    isMentioned || (threadParentSenderID ≠ "" && participantID = threadParentSenderID)
  else false

def splitMember (msg : ChannelMessage) (directed : Bool) (threadParentSenderID : String)
    (split : RoundSplit) (m : Member) : RoundSplit :=
  if m.participantID = msg.senderID then split
  else
    let policy := normalize m.respondPolicy
    if policy = respondNever then split
    else
      let isMentioned := decide (m.participantID ∈ msg.mentions)
      if !isCandidate policy m.participantID isMentioned directed threadParentSenderID then
        { split with nonResponders := split.nonResponders ++ [m] }
      else if isMentioned then { split with mentioned := split.mentioned ++ [m] }
      else { split with unmentioned := split.unmentioned ++ [m] }

def isDirected (members : List Member) (msg : ChannelMessage) : Bool :=
  !(resolveFloorMentions members msg.mentions msg.senderID).isEmpty &&
    !decide (mentionEveryone ∈ msg.mentions)

/-- The responders in the order of the round, and those delivered to off the floor. -/
def orderResponders (members : List Member) (msg : ChannelMessage)
    (threadParentSenderID : String) : List Member × List Member :=
  let split := members.foldl
    (splitMember msg (isDirected members msg) threadParentSenderID) {}
  (split.mentioned ++ split.unmentioned, split.nonResponders)

/-- What a member is delivered: its policy, the mentions, the floor mentions with the flag,
and the thread context. -/
def delivered (members : List Member) (msg : ChannelMessage) (threadParentSenderID : String)
    (m : Member) : AgentEvent where
  eventType := .channelMessage
  payload :=
    AList.insert "respond_policy" (.str m.respondPolicy)
      (AList.insert "mentions" (.list (msg.mentions.map .str))
        (AList.insert "floor_mentions"
          (.list ((resolveFloorMentions members msg.mentions msg.senderID).map .str))
          (AList.insert "floor_mentions_resolved" (.bool true)
            (AList.insert "thread_parent_sender_id" (.str threadParentSenderID) ∅))))
  channelID := some msg.channelID
  senderID := some msg.senderID
  threadID := if msg.threadID = "" then none else some msg.threadID

/-- Whether the gate of a member responds. -/
def gateResponds (members : List Member) (msg : ChannelMessage) (threadParentSenderID : String)
    (m : Member) : Bool :=
  (evaluateResponseGate (delivered members msg threadParentSenderID m) m.participantID).respond

/-- The members that the loop takes into the round. -/
def isResponder (msg : ChannelMessage) (directed : Bool) (threadParentSenderID : String)
    (m : Member) : Bool :=
  m.participantID ≠ msg.senderID && normalize m.respondPolicy ≠ respondNever &&
    isCandidate (normalize m.respondPolicy) m.participantID
      (decide (m.participantID ∈ msg.mentions)) directed threadParentSenderID

theorem foldl_splitMember (msg : ChannelMessage) (directed : Bool) (threadParentSenderID : String)
    (members : List Member) (split : RoundSplit) :
    let result := members.foldl (splitMember msg directed threadParentSenderID) split
    result.mentioned = split.mentioned ++ members.filter (fun m =>
        isResponder msg directed threadParentSenderID m && decide (m.participantID ∈ msg.mentions)) ∧
      result.unmentioned = split.unmentioned ++ members.filter (fun m =>
        isResponder msg directed threadParentSenderID m &&
          !decide (m.participantID ∈ msg.mentions)) := by
  induction members generalizing split with
  | nil => simp
  | cons m members ih =>
    obtain ⟨hmentioned, hunmentioned⟩ :=
      ih (splitMember msg directed threadParentSenderID split m)
    dsimp only
    rw [List.foldl_cons, hmentioned, hunmentioned, List.filter_cons, List.filter_cons]
    unfold splitMember isResponder
    by_cases hself : m.participantID = msg.senderID
    · simp [hself]
    · by_cases hnever : normalize m.respondPolicy = respondNever
      · simp [hself, hnever]
      · by_cases hcandidate : isCandidate (normalize m.respondPolicy) m.participantID
            (decide (m.participantID ∈ msg.mentions)) directed threadParentSenderID = true
        · by_cases hmem : m.participantID ∈ msg.mentions
          · rw [decide_eq_true hmem] at hcandidate
            simp [hself, hnever, hcandidate, hmem]
          · rw [decide_eq_false hmem] at hcandidate
            simp [hself, hnever, hcandidate, hmem]
        · simp [hself, hnever, hcandidate]

theorem orderResponders_fst (members : List Member) (msg : ChannelMessage)
    (threadParentSenderID : String) :
    (orderResponders members msg threadParentSenderID).1 =
      members.filter (fun m => isResponder msg (isDirected members msg) threadParentSenderID m &&
          decide (m.participantID ∈ msg.mentions)) ++
        members.filter (fun m => isResponder msg (isDirected members msg) threadParentSenderID m &&
          !decide (m.participantID ∈ msg.mentions)) := by
  obtain ⟨hmentioned, hunmentioned⟩ := foldl_splitMember msg (isDirected members msg)
    threadParentSenderID members {}
  unfold orderResponders
  dsimp only
  rw [hmentioned, hunmentioned]
  rfl

theorem participantID_ne_empty (m : Member) : m.participantID ≠ "" := by
  intro hempty
  have hvalid := m.valid
  rw [hempty] at hvalid
  cases hvalid

section delivered
variable (members : List Member) (msg : ChannelMessage) (threadParentSenderID : String)
  (m : Member)

theorem lookup_delivered_policy :
    (delivered members msg threadParentSenderID m).payload.lookup "respond_policy" =
      some (.str m.respondPolicy) := rfl

theorem lookup_delivered_mentions :
    (delivered members msg threadParentSenderID m).payload.lookup "mentions" =
      some (.list (msg.mentions.map .str)) := rfl

theorem lookup_delivered_floorMentions :
    (delivered members msg threadParentSenderID m).payload.lookup "floor_mentions" =
      some (.list ((resolveFloorMentions members msg.mentions msg.senderID).map .str)) := rfl

theorem lookup_delivered_parent :
    (delivered members msg threadParentSenderID m).payload.lookup "thread_parent_sender_id" =
      some (.str threadParentSenderID) := rfl

theorem flag_delivered (key : String) (hkey : key ≠ "floor_mentions_resolved") :
    flag (delivered members msg threadParentSenderID m).payload key = false := by
  unfold flag delivered
  simp only [GoMap.lookup_insert, GoMap.lookup_empty]
  split_ifs <;> simp_all [PyValue.isTrue]

theorem flag_delivered_resolved :
    flag (delivered members msg threadParentSenderID m).payload "floor_mentions_resolved" =
      true := rfl

theorem canonicalPolicy_delivered :
    canonicalPolicy (delivered members msg threadParentSenderID m).payload =
      normalize m.respondPolicy := by
  unfold canonicalPolicy
  rw [lookup_delivered_policy]
  unfold dispositionAliases normalize
  simp only [List.lookup_cons, List.lookup_nil, policyParticipant, policyChair, policyAddressed,
    policyObserver, policyAlways, policyWhenMentioned, policyNever, respondParticipant,
    respondChair, respondAddressed, respondObserver, respondAlways, respondWhenMentioned,
    respondNever]
  by_cases hparticipant : m.respondPolicy = "participant"
  · simp [hparticipant]
  · by_cases hchair : m.respondPolicy = "chair"
    · simp [hchair]
    · by_cases haddressed : m.respondPolicy = "addressed"
      · simp [haddressed]
      · by_cases hobserver : m.respondPolicy = "observer"
        · simp [hobserver]
        · rw [beq_false_of_ne hparticipant, beq_false_of_ne hchair, beq_false_of_ne haddressed,
            beq_false_of_ne hobserver]
          simp [hparticipant, hchair, haddressed, hobserver]

theorem mentionsOf_delivered :
    mentionsOf (delivered members msg threadParentSenderID m).payload =
      .list (msg.mentions.map .str) := by
  unfold mentionsOf
  rw [lookup_delivered_mentions]
  cases msg.mentions <;> rfl

theorem contains_map_str (mentions : List String) (s : String) :
    PyValue.contains (mentions.map .str) s = decide (s ∈ mentions) := by
  unfold PyValue.contains
  rw [List.any_map, Bool.eq_iff_iff, List.any_eq_true, decide_eq_true_eq]
  constructor
  · rintro ⟨t, ht, heq⟩
    exact (beq_iff_eq.mp heq) ▸ ht
  · intro hs
    exact ⟨s, hs, beq_self_eq_true s⟩

/-- An open floor has no floor mentions. -/
theorem resolveFloorMentions_nil (members : List Member) (senderID : String) :
    resolveFloorMentions members [] senderID = [] := rfl

theorem alwaysDecision_delivered :
    (alwaysDecision (delivered members msg threadParentSenderID m).payload
        m.participantID).respond =
      (decide (m.participantID ∈ msg.mentions) || !isDirected members msg) := by
  unfold alwaysDecision suppressionBasis isDirected
  rw [mentionsOf_delivered, flag_delivered_resolved, lookup_delivered_floorMentions]
  dsimp only
  rw [contains_map_str, contains_map_str]
  by_cases hnone : msg.mentions = []
  · simp [hnone, resolveFloorMentions_nil]
  · by_cases hmem : m.participantID ∈ msg.mentions
    · simp [hnone, hmem]
    · by_cases heveryone : Channels.mentionEveryone ∈ msg.mentions
      · have heveryone' : Agents.mentionEveryone ∈ msg.mentions := heveryone
        simp [hnone, hmem, heveryone, heveryone']
      · have heveryone' : Agents.mentionEveryone ∉ msg.mentions := heveryone
        by_cases hfloor : resolveFloorMentions members msg.mentions msg.senderID = [] <;>
          simp [hnone, hmem, heveryone, heveryone', hfloor]

/-- Only a thread event has a thread parent. -/
theorem whenMentionedDecision_delivered
    (hthread : threadParentSenderID ≠ "" → msg.threadID ≠ "") :
    (whenMentionedDecision (delivered members msg threadParentSenderID m)
        m.participantID).respond =
      (decide (m.participantID ∈ msg.mentions) ||
        (threadParentSenderID ≠ "" && decide (m.participantID = threadParentSenderID))) := by
  unfold whenMentionedDecision
  rw [mentionsOf_delivered, lookup_delivered_parent]
  dsimp only
  rw [contains_map_str]
  by_cases hmem : m.participantID ∈ msg.mentions
  · simp [hmem]
  · by_cases hparent : m.participantID = threadParentSenderID
    · have hne : threadParentSenderID ≠ "" := hparent ▸ participantID_ne_empty m
      rw [hparent] at hmem
      simp [hmem, hparent, hne, hthread hne, delivered, PyValue.isStr]
    · have hne : ¬ threadParentSenderID = m.participantID := fun h => hparent h.symm
      simp [hmem, hparent, hne, PyValue.isStr]

end delivered

theorem startsWith_group {id : String} (h : startsWith id "group:" = true) :
    id ≠ "" ∧ startsWith id dmChannelPrefix = false := by
  have hprefix := List.isPrefixOf_iff_prefix.mp h
  obtain ⟨rest, hrest⟩ := hprefix
  constructor
  · intro hempty
    rw [hempty] at hrest
    cases hrest
  · unfold startsWith
    rw [← hrest]
    rfl

/-- Away from its own messages, the gate of a member responds exactly if the loop takes it. -/
theorem gateResponds_eq {members : List Member} {msg : ChannelMessage}
    {threadParentSenderID : String} (hgroup : startsWith msg.channelID "group:" = true)
    (hthread : threadParentSenderID ≠ "" → msg.threadID ≠ "") (m : Member)
    (hself : m.participantID ≠ msg.senderID) :
    gateResponds members msg threadParentSenderID m =
      isResponder msg (isDirected members msg) threadParentSenderID m := by
  obtain ⟨hnonempty, hdm⟩ := startsWith_group hgroup
  have hmarkers : ∀ policy : String, (forcedTurnMarkers.find? fun marker =>
      flag (delivered members msg threadParentSenderID m).payload marker &&
        decide (policy ∈ [policyAlways, policyWhenMentioned])) = none := by
    intro policy
    rw [List.find?_eq_none]
    intro marker hmarker
    rw [flag_delivered members msg threadParentSenderID m marker, Bool.false_and]
    · exact Bool.false_ne_true
    · rintro rfl
      revert hmarker
      decide
  have hclose := flag_delivered members msg threadParentSenderID m
    "interaction_close_notification" (by decide)
  have hsender : ¬ (delivered members msg threadParentSenderID m).senderID =
      some m.participantID := by
    intro h
    exact hself (Option.some.inj h).symm
  have hchannel : (delivered members msg threadParentSenderID m).channelID.getD "" =
      msg.channelID := rfl
  have htype : (delivered members msg threadParentSenderID m).eventType = .channelMessage := rfl
  unfold gateResponds evaluateResponseGate
  dsimp only
  rw [if_neg (fun h => h htype), hchannel, if_neg hnonempty, hdm, if_neg Bool.false_ne_true,
    hclose, if_neg Bool.false_ne_true, if_neg hsender, canonicalPolicy_delivered, hmarkers]
  dsimp only
  have hnames : policyNever = respondNever ∧ policyAlways = respondAlways ∧
      policyWhenMentioned = respondWhenMentioned := ⟨rfl, rfl, rfl⟩
  rw [hnames.1, hnames.2.1, hnames.2.2]
  unfold isResponder isCandidate
  by_cases hnever : normalize m.respondPolicy = respondNever
  · rw [if_pos hnever]
    simp [hnever]
  · rw [if_neg hnever]
    by_cases halways : normalize m.respondPolicy = respondAlways
    · rw [if_pos halways, if_pos halways, alwaysDecision_delivered]
      simp [hself, hnever]
    · rw [if_neg halways, if_neg halways]
      by_cases hmentioned : normalize m.respondPolicy = respondWhenMentioned
      · rw [if_pos hmentioned, if_pos hmentioned,
          whenMentionedDecision_delivered members msg threadParentSenderID m hthread]
        simp [hself, hnever]
      · rw [if_neg hmentioned, if_neg hmentioned]
        simp

/-- On a group channel the round holds exactly the members other than the sender whose gate
responds, those mentioned first, in the order of the roster within each group. -/
theorem orderResponders_agrees (members : List Member) (msg : ChannelMessage)
    (getMessage : String → Option String) (hgroup : startsWith msg.channelID "group:" = true) :
    let parent := resolveThreadParentSenderID getMessage msg
    (∀ m, m ∈ (orderResponders members msg parent).1 ↔
      m ∈ members ∧ m.participantID ≠ msg.senderID ∧ gateResponds members msg parent m = true) ∧
    (orderResponders members msg parent).1 =
      (members.filter fun m => m.participantID ≠ msg.senderID &&
        gateResponds members msg parent m && decide (m.participantID ∈ msg.mentions)) ++
      members.filter fun m => m.participantID ≠ msg.senderID &&
        gateResponds members msg parent m && !decide (m.participantID ∈ msg.mentions) := by
  dsimp only
  have hthread : resolveThreadParentSenderID getMessage msg ≠ "" → msg.threadID ≠ "" := by
    intro hparent hempty
    exact hparent (if_pos hempty)
  generalize resolveThreadParentSenderID getMessage msg = parent at hthread
  have hsame : ∀ m, isResponder msg (isDirected members msg) parent m =
      (decide (m.participantID ≠ msg.senderID) && gateResponds members msg parent m) := by
    intro m
    by_cases hself : m.participantID = msg.senderID
    · simp [isResponder, hself]
    · rw [gateResponds_eq hgroup hthread m hself]
      simp [hself]
  have hround := orderResponders_fst members msg parent
  simp only [hsame] at hround
  refine ⟨?_, hround⟩
  intro m
  rw [hround, List.mem_append, List.mem_filter, List.mem_filter]
  by_cases hmem : m.participantID ∈ msg.mentions <;> simp [hmem]

def alice : Member := ⟨"alice", "participant", by decide⟩
def bob : Member := ⟨"bob", "addressed", by decide⟩
def operator : Member := ⟨"operator", "never", by decide⟩

/-- Alice's message names Bob and the operator, who cannot take the floor. -/
def namesBob : ChannelMessage where
  channelID := "group:dev"
  senderID := "carol"
  mentions := ["operator", "bob"]

theorem orderResponders_agrees_names_bob :
    bob ∈ (orderResponders [alice, bob, operator] namesBob
      (resolveThreadParentSenderID (fun _ => none) namesBob)).1 ↔
    bob ∈ [alice, bob, operator] ∧ bob.participantID ≠ namesBob.senderID ∧
      gateResponds [alice, bob, operator] namesBob
        (resolveThreadParentSenderID (fun _ => none) namesBob) bob = true :=
  (orderResponders_agrees [alice, bob, operator] namesBob (fun _ => none) (by decide)).1 bob

end Persatrix.Channels
