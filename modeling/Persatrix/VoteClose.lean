import Persatrix.InteractionCloses
import Persatrix.System
import Mathlib.Logic.Function.Basic

/-!
# The local close of a vote that was published

A turn that votes to end the conversation of its channel parks the close of the voter's records: under
the channel is kept which records are open, which conversation the vote judged, a token that the votes
of the turn carry, and how many of them are still on their way. The outcome of a vote is acted on only
if the token is that of the park. A failure takes one vote away, the last one the park; a publish takes
the park, and closes what was open then and belongs to the conversation, unless the conversation is the
one last voted on in the scope.

A call of a handler is one step, under the lock of the agent. The fields `votes` and `counted` are of
this development: the votes with a token whose outcome is not reported yet, and the conversations voted
on so far.
-/
namespace Persatrix.Interactions
open Agents

def isGroupScope (scope : String) : Bool := startsWith scope groupPrefix

structure AgentAction where
  endInteractionVote : Bool
  /-- The `channel_id` of the payload as text, empty where it is absent. -/
  channelID : String
deriving DecidableEq

def matchingEndVotes (event : AgentEvent) (actions : List AgentAction) : List AgentAction :=
  let channelID := event.channelID.getD ""
  if channelID = "" then []
  else actions.filter fun action => action.endInteractionVote && strip action.channelID = channelID

structure PendingVoteClose where
  scope : String
  interactionID : ℕ
  token : ℕ
  inFlight : ℕ
  wireID : String
  siblingIDs : List ℕ
deriving DecidableEq

structure Voter where
  tracker : Tracker := .init
  pendingVoteCloses : String → Option PendingVoteClose := fun _ => none
  voteClosedWireIDs : String → Option String := fun _ => none
  nextToken : ℕ := 0
  votes : List (String × ℕ) := []
  counted : List (String × String) := []

namespace Voter

/-- The record that the turn of an arrival has landed in, once the handling is over. -/
def landedRecord (cfg : Config) (t : Tracker) (a : Arrival) (scope : String) : Interaction :=
  let observed := t.observeWireMessage (a.event.messageID.getD "") a.event.metadata.replayMode
  let payload := buildTurnPayload a.event a.summary observed.1
  let wireID := scopeWireAnchor scope a.event
  let r := ((closeStaleRecords cfg scope a observed.2).addTurn cfg scope a payload
    (frozenOpenCapture a.event)).1
  if wireID ≠ "" ∧ r.isOpen ∧ r.wireInteractionID = "" then
    r.stamp wireID a.event.metadata.previousInteractionID
  else r

/-- `park_end_vote_close`, where it is called and makes a park. -/
def parkFor (cfg : Config) (s : Voter) (a : Arrival) (actions : List AgentAction) :
    Option PendingVoteClose :=
  (scopeForMultiTurnEvent cfg a.event).bind fun scope =>
    let r := landedRecord cfg s.tracker a scope
    let votes := matchingEndVotes a.event actions
    if !isSessionEndEvent a.event && r.isOpen && isGroupScope scope && !votes.isEmpty then
      some
        { scope := scope
          interactionID := r.interactionID
          token := s.nextToken
          inFlight := votes.length
          wireID := r.wireInteractionID
          siblingIDs := ((handleMultiTurnEvent cfg s.tracker a).recordsForScope scope).map
            Interaction.interactionID }
    else none

/-- The handling of a multi-turn event. -/
def handle (cfg : Config) (s : Voter) (a : Arrival) (actions : List AgentAction) : Voter :=
  let tracker := handleMultiTurnEvent cfg s.tracker a
  match s.parkFor cfg a actions with
  | none => { s with tracker := tracker }
  | some p =>
    let channelID := a.event.channelID.getD ""
    { s with
      tracker := tracker
      pendingVoteCloses := Function.update s.pendingVoteCloses channelID (some p)
      nextToken := s.nextToken + 1
      votes := s.votes ++ List.replicate p.inFlight (channelID, p.token) }

/-- The conversation that the vote judged; that of the parked record where it had none yet. -/
def anchor (t : Tracker) (p : PendingVoteClose) : String :=
  if p.wireID ≠ "" then p.wireID
  else
    match (t.recordsForScope p.scope).find? fun r => r.interactionID = p.interactionID with
    | some parked => parked.wireInteractionID
    | none => ""

/-- The parked record is still open. -/
def parkedOpen (t : Tracker) (p : PendingVoteClose) : Bool :=
  (t.recordsForScope p.scope).any fun r => r.interactionID = p.interactionID

def voteAdmits (p : PendingVoteClose) (anchor : String) (r : Interaction) : Bool :=
  (p.siblingIDs.isEmpty || p.siblingIDs.contains r.interactionID) && wireAdmitsRecord r anchor false

/-- Whether a published vote closes records. -/
def closes (s : Voter) (p : PendingVoteClose) (synthesisReply : Bool) : Bool :=
  let a := anchor s.tracker p
  !synthesisReply && !(a ≠ "" && s.voteClosedWireIDs p.scope = some a) &&
    (a ≠ "" || parkedOpen s.tracker p)

/-- The publish of a vote that its park covers. -/
def publish (s : Voter) (channelID : String) (p : PendingVoteClose) (synthesisReply : Bool) :
    Voter :=
  let a := anchor s.tracker p
  { s with
    pendingVoteCloses := Function.update s.pendingVoteCloses channelID none
    voteClosedWireIDs :=
      if a ≠ "" then Function.update s.voteClosedWireIDs p.scope (some a) else s.voteClosedWireIDs
    counted := if a ≠ "" then (p.scope, a) :: s.counted else s.counted
    tracker :=
      if s.closes p synthesisReply then s.tracker.closeScope p.scope .structural (voteAdmits p a)
      else s.tracker }

/-- The failure of a vote that its park covers. -/
def fail (s : Voter) (channelID : String) (p : PendingVoteClose) : Voter :=
  { s with
    pendingVoteCloses := Function.update s.pendingVoteCloses channelID
      (if 1 < p.inFlight then some { p with inFlight := p.inFlight - 1 } else none) }

/-- The park that the outcome of a vote is about. -/
def parkOf (s : Voter) (channelID : String) (token : ℕ) : Option PendingVoteClose :=
  (s.pendingVoteCloses channelID).filter fun p => p.token = token

/-- `discharge_end_vote_publish` -/
def discharge (s : Voter) (channelID : String) (token : ℕ) (published synthesisReply : Bool) :
    Voter :=
  match s.parkOf channelID token with
  | none => s
  | some p => if published then s.publish channelID p synthesisReply else s.fail channelID p

/-- Records that have idled out are closed. -/
def flush (s : Voter) (expired : List (Interaction × CloseReason)) : Voter :=
  { s with tracker := expired.foldl (fun t p => (t.closeRecord p.1 p.2 none).2) s.tracker }

end Voter

/-- An outcome is reported for a vote with a token, and for each such vote once. -/
inductive VoterEvent where
  | event (a : Arrival) (actions : List AgentAction)
  | flush (expired : List (Interaction × CloseReason))
  | outcome (channelID : String) (token : ℕ) (published synthesisReply : Bool)

def Voter.step (cfg : Config) (s : Voter) : VoterEvent → Option Voter
  | .event a actions => some (s.handle cfg a actions)
  | .flush expired => some (s.flush expired)
  | .outcome channelID token published synthesisReply =>
    if (channelID, token) ∈ s.votes then
      some { s.discharge channelID token published synthesisReply with
        votes := s.votes.erase (channelID, token) }
    else none

def voteSystem (cfg : Config) : System Voter VoterEvent where
  init := {}
  step := Voter.step cfg

/-! ### What is observed of a run -/

/-- The outcome of a vote whose park was there: what the vote judged and what was closed. -/
structure Discharge where
  published : Bool
  synthesisReply : Bool
  park : PendingVoteClose
  anchor : String
  closed : List Interaction

inductive VoteNote where
  | parked (p : PendingVoteClose) (records : List Interaction)
  | discharged (d : Discharge)

def voteNotes (cfg : Config) (s : Voter) (e : VoterEvent) (t : Voter) : List VoteNote :=
  match e with
  | .event a actions =>
    (s.parkFor cfg a actions).toList.map fun p => .parked p (t.tracker.recordsForScope p.scope)
  | .flush _ => []
  | .outcome channelID token published synthesisReply =>
    (s.parkOf channelID token).toList.map fun p => .discharged
      ⟨published, synthesisReply, p, Voter.anchor s.tracker p,
        t.tracker.closed.drop s.tracker.closed.length⟩

end Persatrix.Interactions

/-!
## The steps of a voter

A turn that parks leaves its record among the siblings. What a discharge closes was a sibling and
belongs to the conversation that the vote judged. A park counts its votes whose outcome is not reported
yet, and no other park has its token.
-/
namespace Persatrix.Interactions
open Agents

/-! ### The record of a turn that parks -/

theorem recordFor_scope (cfg : Config) (t : Tracker) (scope : String) (a : Arrival)
    (capture : FrozenOpenCapture) : (t.recordFor cfg scope a capture).1.scope = scope := by
  have hget : ∀ (k : RecordKey) (r : Interaction),
      (t.opened.get k).filter Interaction.isOpen = some r → r.scope = k.scope := by
    intro k r h
    obtain ⟨hr, -⟩ := Option.filter_eq_some_iff.mp h
    exact congrArg RecordKey.scope (Keyed.get_eq_some.mp hr).2
  unfold Tracker.recordFor
  dsimp only
  split
  · next r h => exact hget _ r h
  · unfold Tracker.start
    dsimp only
    split
    · next r h => exact hget _ r h
    · rfl

/-- The record of a turn is open only if it is among the open ones. -/
theorem addTurn_opened (cfg : Config) (t : Tracker) (scope : String) (a : Arrival)
    (payload : Payload) (capture : FrozenOpenCapture)
    (hopen : (t.addTurn cfg scope a payload capture).1.isOpen = true) :
    (t.addTurn cfg scope a payload capture).1 ∈
        (t.addTurn cfg scope a payload capture).2.opened.values ∧
      (t.addTurn cfg scope a payload capture).1.scope = scope := by
  have hscope := recordFor_scope cfg t scope a capture
  unfold Tracker.addTurn at hopen ⊢
  dsimp only at hopen ⊢
  generalize t.recordFor cfg scope a capture = found at hopen hscope ⊢
  obtain ⟨r, u⟩ := found
  split at hopen
  · exfalso
    dsimp only at hopen
    set after : Tracker := { u with opened := u.opened.put (r.append ⟨payload, a⟩) } with hafter
    have hmem : r.append ⟨payload, a⟩ ∈ after.opened.values := Keyed.mem_put.mpr (.inl rfl)
    have honly : ∀ s ∈ after.opened.values, s.key = (r.append ⟨payload, a⟩).key →
        s = r.append ⟨payload, a⟩ := fun s hs hkey => Keyed.eq_of_key hs hmem hkey
    rcases closeRecord_eq after (r.append ⟨payload, a⟩) .maxTurns none honly with
      ⟨hnot, -⟩ | ⟨-, hclosed, -, -⟩
    · exact hnot hmem
    · rw [hclosed] at hopen
      cases hopen
  · next hcap =>
      rw [if_neg hcap]
      exact ⟨Keyed.mem_put.mpr (.inl rfl), hscope⟩

/-- The record that is parked is among the siblings. -/
theorem landedRecord_mem {cfg : Config} {t : Tracker} {a : Arrival} {scope : String}
    (hscope : scopeForMultiTurnEvent cfg a.event = some scope)
    (hend : isSessionEndEvent a.event = false)
    (hopen : (Voter.landedRecord cfg t a scope).isOpen = true) :
    Voter.landedRecord cfg t a scope ∈ (handleMultiTurnEvent cfg t a).recordsForScope scope := by
  unfold Tracker.recordsForScope handleMultiTurnEvent stampRecord
  rw [hscope]
  dsimp only
  rw [hend, if_neg Bool.false_ne_true]
  unfold Voter.landedRecord at hopen ⊢
  dsimp only at hopen ⊢
  rw [List.mem_filter]
  split at hopen
  · next hstamp =>
      obtain ⟨-, hscope'⟩ := addTurn_opened cfg _ scope a _ _ hstamp.2.1
      rw [if_pos hstamp, if_pos hstamp]
      exact ⟨Keyed.mem_put.mpr (.inl rfl), decide_eq_true hscope'⟩
  · next hstamp =>
      obtain ⟨hmem, hscope'⟩ := addTurn_opened cfg _ scope a _ _ hopen
      rw [if_neg hstamp, if_neg hstamp]
      exact ⟨hmem, decide_eq_true hscope'⟩

/-- What a park holds when it is made. -/
structure ParkMade (s : Voter) (t : Tracker) (p : PendingVoteClose) : Prop where
  token : p.token = s.nextToken
  siblings : p.siblingIDs = (t.recordsForScope p.scope).map Interaction.interactionID
  nonempty : p.siblingIDs ≠ []

theorem parkMade_of_parkFor {cfg : Config} {s : Voter} {a : Arrival} {actions : List AgentAction}
    {p : PendingVoteClose} (h : s.parkFor cfg a actions = some p) :
    ParkMade s (handleMultiTurnEvent cfg s.tracker a) p := by
  obtain ⟨scope, hscope, hpark⟩ := Option.bind_eq_some_iff.mp h
  dsimp only at hpark
  split_ifs at hpark with hguard
  cases hpark
  simp only [Bool.and_eq_true, Bool.not_eq_true'] at hguard
  refine ⟨rfl, rfl, fun hnil => ?_⟩
  have hmem := landedRecord_mem hscope hguard.1.1.1 hguard.1.1.2
  rw [List.map_eq_nil_iff.mp hnil] at hmem
  cases hmem

/-! ### What a discharge closes -/

/-- A fan over open records hands on each of them. -/
theorem closed_foldl_closeRecord {l : List Interaction} {t : Tracker} (reason : CloseReason)
    (hall : ∀ r ∈ l, r ∈ t.opened.values) (hkeys : (l.map Interaction.key).Nodup) :
    (l.foldl (fun t r => (t.closeRecord r reason none).2) t).closed =
      t.closed ++ l.map fun r => r.close reason none := by
  induction l generalizing t with
  | nil => exact (List.append_nil _).symm
  | cons r l ih =>
    obtain ⟨hr, hl⟩ := List.forall_mem_cons.mp hall
    rw [List.map_cons, List.nodup_cons] at hkeys
    have honly : ∀ s ∈ t.opened.values, s.key = r.key → s = r :=
      fun s hs hkey => Keyed.eq_of_key hs hr hkey
    rcases closeRecord_eq t r reason none honly with ⟨hnot, -⟩ | ⟨-, -, hopened, hclosed⟩
    · exact absurd hr hnot
    · have hrest : ∀ s ∈ l, s ∈ (t.closeRecord r reason none).2.opened.values := by
        intro s hs
        rw [hopened, Keyed.mem_erase]
        refine ⟨hl s hs, fun hkey => hkeys.1 ?_⟩
        rw [← hkey]
        exact List.mem_map_of_mem hs
      rw [List.foldl_cons, ih hrest hkeys.2, hclosed, List.append_assoc]
      rfl

theorem closed_closeScope (t : Tracker) (scope : String) (reason : CloseReason)
    (admits : Interaction → Bool) :
    (t.closeScope scope reason admits).closed =
      t.closed ++ (t.admittedRecords scope admits).map fun r => r.close reason none := by
  refine closed_foldl_closeRecord reason (fun r hr => List.mem_of_mem_filter hr) ?_
  exact t.opened.distinct.sublist (List.filter_sublist.map Interaction.key)

/-- What a record that a discharge closes is. -/
structure Judged (p : PendingVoteClose) (anchor : String) (r : Interaction) : Prop where
  scope : r.scope = p.scope
  sibling : p.siblingIDs = [] ∨ r.interactionID ∈ p.siblingIDs
  live : r.replayed = false
  wire : r.wireInteractionID = "" ∨ r.wireInteractionID = anchor

theorem judged_of_voteAdmits {t : Tracker} {p : PendingVoteClose} {anchor : String}
    {reason : CloseReason} {r : Interaction}
    (h : r ∈ (t.admittedRecords p.scope (Voter.voteAdmits p anchor)).map
      fun r => r.close reason none) : Judged p anchor r := by
  obtain ⟨s, hs, rfl⟩ := List.mem_map.mp h
  have hadmits := (List.mem_filter.mp hs).2
  unfold Voter.voteAdmits wireAdmitsRecord at hadmits
  simp only [Bool.and_eq_true, Bool.or_eq_true, decide_eq_true_eq, Bool.not_eq_true',
    List.isEmpty_iff, List.contains_iff_mem] at hadmits
  obtain ⟨⟨hscope, hlive⟩, hsibling, hwire⟩ := hadmits
  refine ⟨hscope, hsibling, hlive, ?_⟩
  split_ifs at hwire with hblank hanchor
  · exact .inl hblank
  · exact .inr (of_decide_eq_true hwire)

/-- The records that an outcome has closed. -/
theorem publish_closed (s : Voter) (channelID : String) (p : PendingVoteClose)
    (synthesisReply : Bool) :
    (s.publish channelID p synthesisReply).tracker.closed = s.tracker.closed ++
      if s.closes p synthesisReply then
        (s.tracker.admittedRecords p.scope
          (Voter.voteAdmits p (Voter.anchor s.tracker p))).map fun r => r.close .structural none
      else [] := by
  unfold Voter.publish
  dsimp only
  split_ifs
  · exact closed_closeScope _ _ _ _
  · exact (List.append_nil _).symm

/-! ### What a step does -/

/-- What a step of the voter can do, with the notes taken of it. -/
inductive VoterStep (s : Voter) : VoterEvent → Voter → List VoteNote → Prop
  | quiet (e : VoterEvent) (tracker : Tracker) : VoterStep s e { s with tracker := tracker } []
  | park (e : VoterEvent) (tracker : Tracker) (channelID : String) (p : PendingVoteClose)
      (made : ParkMade s tracker p) :
      VoterStep s e
        { s with
          tracker := tracker
          pendingVoteCloses := Function.update s.pendingVoteCloses channelID (some p)
          nextToken := s.nextToken + 1
          votes := s.votes ++ List.replicate p.inFlight (channelID, p.token) }
        [.parked p (tracker.recordsForScope p.scope)]
  | missed (channelID : String) (token : ℕ) (published synthesisReply : Bool)
      (sent : (channelID, token) ∈ s.votes) (missing : s.parkOf channelID token = none) :
      VoterStep s (.outcome channelID token published synthesisReply)
        { s with votes := s.votes.erase (channelID, token) } []
  | failed (channelID : String) (p : PendingVoteClose) (synthesisReply : Bool)
      (sent : (channelID, p.token) ∈ s.votes)
      (found : s.pendingVoteCloses channelID = some p) :
      VoterStep s (.outcome channelID p.token false synthesisReply)
        { s.fail channelID p with votes := s.votes.erase (channelID, p.token) }
        [.discharged ⟨false, synthesisReply, p, Voter.anchor s.tracker p, []⟩]
  | published (channelID : String) (p : PendingVoteClose) (synthesisReply : Bool)
      (closed : List Interaction) (sent : (channelID, p.token) ∈ s.votes)
      (found : s.pendingVoteCloses channelID = some p)
      (closes : closed ≠ [] → s.closes p synthesisReply = true)
      (judged : ∀ r ∈ closed, Judged p (Voter.anchor s.tracker p) r) :
      VoterStep s (.outcome channelID p.token true synthesisReply)
        { s.publish channelID p synthesisReply with
          votes := s.votes.erase (channelID, p.token) }
        [.discharged ⟨true, synthesisReply, p, Voter.anchor s.tracker p, closed⟩]

theorem parkOf_eq_some {s : Voter} {channelID : String} {token : ℕ} {p : PendingVoteClose}
    (h : s.parkOf channelID token = some p) :
    s.pendingVoteCloses channelID = some p ∧ p.token = token := by
  obtain ⟨hp, htoken⟩ := Option.filter_eq_some_iff.mp h
  exact ⟨hp, of_decide_eq_true htoken⟩

theorem voterStep_event {cfg : Config} (s : Voter) (a : Arrival) (actions : List AgentAction) :
    VoterStep s (.event a actions) (s.handle cfg a actions)
      (voteNotes cfg s (.event a actions) (s.handle cfg a actions)) := by
  unfold voteNotes Voter.handle
  dsimp only
  split
  · next h =>
      rw [h]
      exact .quiet _ _
  · next p h =>
      rw [h]
      exact .park _ _ _ p (parkMade_of_parkFor h)

theorem voterStep_outcome {cfg : Config} (s : Voter) (channelID : String) (token : ℕ)
    (published synthesisReply : Bool) (sent : (channelID, token) ∈ s.votes) :
    let e := VoterEvent.outcome channelID token published synthesisReply
    let t : Voter := { s.discharge channelID token published synthesisReply with
      votes := s.votes.erase (channelID, token) }
    VoterStep s e t (voteNotes cfg s e t) := by
  intro e t
  cases hpark : s.parkOf channelID token with
  | none =>
    have ht : t = { s with votes := s.votes.erase (channelID, token) } := by
      simp only [t, Voter.discharge, hpark]
    have hnotes : voteNotes cfg s e t = [] := by simp only [voteNotes, e, hpark]; rfl
    rw [hnotes, ht]
    exact .missed channelID token published synthesisReply sent hpark
  | some p =>
    obtain ⟨hfound, rfl⟩ := parkOf_eq_some hpark
    have hnotes : voteNotes cfg s e t = [.discharged ⟨published, synthesisReply, p,
        Voter.anchor s.tracker p, t.tracker.closed.drop s.tracker.closed.length⟩] := by
      simp only [voteNotes, e, hpark]
      rfl
    rw [hnotes]
    cases published with
    | false =>
      have ht : t = { s.fail channelID p with
          votes := s.votes.erase (channelID, p.token) } := by
        simp only [t, Voter.discharge, hpark, Bool.false_eq_true, if_false]
      have hnone : t.tracker.closed.drop s.tracker.closed.length = [] := by
        rw [ht]
        exact List.drop_length
      rw [hnone, ht]
      exact .failed channelID p synthesisReply sent hfound
    | true =>
      have ht : t = { s.publish channelID p synthesisReply with
          votes := s.votes.erase (channelID, p.token) } := by
        simp only [t, Voter.discharge, hpark, if_true]
      have hclosed := publish_closed s channelID p synthesisReply
      have hdrop : t.tracker.closed.drop s.tracker.closed.length =
          if s.closes p synthesisReply then
            (s.tracker.admittedRecords p.scope
              (Voter.voteAdmits p (Voter.anchor s.tracker p))).map
                fun r => r.close .structural none
          else [] := by
        rw [ht]
        dsimp only
        rw [hclosed, List.drop_left]
      rw [hdrop, ht]
      refine .published channelID p synthesisReply _ sent hfound ?_ ?_
      · intro hne
        by_contra hcloses
        exact hne (if_neg hcloses)
      · intro r hr
        split_ifs at hr
        · exact judged_of_voteAdmits hr
        · cases hr

theorem voterStep_of_step {cfg : Config} {s t : Voter} {e : VoterEvent}
    (h : (voteSystem cfg).step s e = some t) : VoterStep s e t (voteNotes cfg s e t) := by
  cases e with
  | event a actions =>
    cases h
    exact voterStep_event s a actions
  | flush expired =>
    cases h
    exact .quiet _ _
  | outcome channelID token published synthesisReply =>
    unfold voteSystem Voter.step at h
    dsimp only at h
    split_ifs at h with hsent
    cases h
    exact voterStep_outcome s channelID token published synthesisReply hsent

/-! ### Parks and the votes they count -/

/-- A park counts its votes whose outcome is not reported yet. -/
structure Counts (s : Voter) : Prop where
  inFlight : ∀ c p, s.pendingVoteCloses c = some p → s.votes.count (c, p.token) = p.inFlight
  home : ∀ v ∈ s.votes, ∀ c p, s.pendingVoteCloses c = some p → v.2 = p.token → v.1 = c
  single : ∀ c p d q, s.pendingVoteCloses c = some p → s.pendingVoteCloses d = some q →
    p.token = q.token → c = d
  pending : ∀ c p, s.pendingVoteCloses c = some p → p.token < s.nextToken
  sent : ∀ v ∈ s.votes, v.2 < s.nextToken

theorem update_none_eq_some {f : String → Option PendingVoteClose} {c d : String}
    {p : PendingVoteClose} (h : Function.update f c none d = some p) : d ≠ c ∧ f d = some p := by
  rcases eq_or_ne d c with rfl | hne
  · rw [Function.update_self] at h
    cases h
  · exact ⟨hne, by rwa [Function.update_of_ne hne] at h⟩

/-- A vote of another token is left in place. -/
theorem Counts.erase {s t : Voter} {v : String × ℕ} (h : Counts s)
    (hvotes : t.votes = s.votes.erase v) (hnext : t.nextToken = s.nextToken)
    (hpending : ∀ c p, t.pendingVoteCloses c = some p →
      ∃ q, s.pendingVoteCloses c = some q ∧ q.token = p.token ∧
        p.inFlight = if v = (c, p.token) then q.inFlight - 1 else q.inFlight) :
    Counts t where
  inFlight c p hp := by
    obtain ⟨q, hq, htoken, hcount⟩ := hpending c p hp
    have hbefore := h.inFlight c q hq
    rw [htoken] at hbefore
    rw [hvotes, List.count_erase, hbefore, hcount]
    by_cases hsame : v = (c, p.token)
    · rw [if_pos hsame, if_pos (by simp [hsame])]
    · rw [if_neg hsame, if_neg (by simpa using hsame), Nat.sub_zero]
  home w hw c p hp hwp := by
    obtain ⟨q, hq, htoken, -⟩ := hpending c p hp
    rw [hvotes] at hw
    exact h.home w (List.mem_of_mem_erase hw) c q hq (hwp.trans htoken.symm)
  single c p d r hp hr htokens := by
    obtain ⟨q, hq, hqp, -⟩ := hpending c p hp
    obtain ⟨u, hu, hur, -⟩ := hpending d r hr
    exact h.single c q d u hq hu (by rw [hqp, hur, htokens])
  pending c p hp := by
    obtain ⟨q, hq, htoken, -⟩ := hpending c p hp
    rw [hnext, ← htoken]
    exact h.pending c q hq
  sent w hw := by
    rw [hvotes] at hw
    rw [hnext]
    exact h.sent w (List.mem_of_mem_erase hw)

theorem Counts.park {s : Voter} {tracker : Tracker} {channelID : String} {p : PendingVoteClose}
    (h : Counts s) (htoken : p.token = s.nextToken) :
    Counts { s with
      tracker := tracker
      pendingVoteCloses := Function.update s.pendingVoteCloses channelID (some p)
      nextToken := s.nextToken + 1
      votes := s.votes ++ List.replicate p.inFlight (channelID, p.token) } := by
  -- a park in place is the new one, or an old one under another channel
  have hcases : ∀ c q, Function.update s.pendingVoteCloses channelID (some p) c = some q →
      (c = channelID ∧ q = p) ∨ (c ≠ channelID ∧ s.pendingVoteCloses c = some q) := by
    intro c q hq
    rcases eq_or_ne c channelID with rfl | hne
    · rw [Function.update_self] at hq
      exact .inl ⟨rfl, (Option.some.inj hq).symm⟩
    · rw [Function.update_of_ne hne] at hq
      exact .inr ⟨hne, hq⟩
  have hfresh : ∀ v ∈ s.votes, v.2 ≠ p.token := fun v hv =>
    htoken ▸ (h.sent v hv).ne
  have hold : ∀ c q, s.pendingVoteCloses c = some q → q.token ≠ p.token := fun c q hq =>
    htoken ▸ (h.pending c q hq).ne
  constructor
  · intro c q hq
    dsimp only
    rw [List.count_append, List.count_replicate]
    rcases hcases c q hq with ⟨rfl, rfl⟩ | ⟨hne, hq⟩
    · have hnone : s.votes.count (c, q.token) = 0 :=
        List.count_eq_zero.mpr fun hv => hfresh _ hv rfl
      rw [hnone, if_pos (by simp), Nat.zero_add]
    · rw [h.inFlight c q hq, if_neg (by simp [Ne.symm hne]), Nat.add_zero]
  · intro v hv c q hq hvq
    rcases List.mem_append.mp hv with hold' | hnew
    · rcases hcases c q hq with ⟨rfl, rfl⟩ | ⟨-, hbefore⟩
      · exact absurd hvq (hfresh v hold')
      · exact h.home v hold' c q hbefore hvq
    · rw [List.eq_of_mem_replicate hnew] at hvq ⊢
      rcases hcases c q hq with ⟨rfl, rfl⟩ | ⟨-, hbefore⟩
      · rfl
      · exact absurd hvq.symm (hold c q hbefore)
  · intro c q d r hq hr htokens
    rcases hcases c q hq with ⟨rfl, rfl⟩ | ⟨-, hqbefore⟩
    · rcases hcases d r hr with ⟨rfl, rfl⟩ | ⟨-, hrbefore⟩
      · rfl
      · exact absurd htokens.symm (hold d r hrbefore)
    · rcases hcases d r hr with ⟨rfl, rfl⟩ | ⟨-, hrbefore⟩
      · exact absurd htokens (hold c q hqbefore)
      · exact h.single c q d r hqbefore hrbefore htokens
  · intro c q hq
    rcases hcases c q hq with ⟨rfl, rfl⟩ | ⟨-, hbefore⟩
    · exact htoken ▸ Nat.lt_succ_self _
    · exact (h.pending c q hbefore).trans (Nat.lt_succ_self _)
  · intro v hv
    rcases List.mem_append.mp hv with hv | hv
    · exact (h.sent v hv).trans (Nat.lt_succ_self _)
    · rw [List.eq_of_mem_replicate hv]
      exact htoken ▸ Nat.lt_succ_self _

/-- The outcome of a vote leaves each other park as it was. -/
theorem Counts.other {s : Voter} {channelID c : String} {p q : PendingVoteClose} (h : Counts s)
    (hp : s.pendingVoteCloses channelID = some p) (hne : c ≠ channelID)
    (hq : s.pendingVoteCloses c = some q) : (channelID, p.token) ≠ (c, q.token) ∧
      q.token ≠ p.token :=
  ⟨fun heq => hne (Prod.ext_iff.mp heq).1.symm,
    fun heq => hne (h.single c q channelID p hq hp heq)⟩

theorem counts_step {s t : Voter} {e : VoterEvent} {notes : List VoteNote}
    (hstep : VoterStep s e t notes) (h : Counts s) : Counts t := by
  cases hstep with
  | quiet _ tracker => exact ⟨h.inFlight, h.home, h.single, h.pending, h.sent⟩
  | park _ tracker channelID p made => exact h.park made.token
  | missed channelID token published synthesisReply sent missing =>
    refine h.erase rfl rfl fun c p hp => ⟨p, hp, rfl, (if_neg fun heq => ?_).symm⟩
    cases heq
    refine Option.some_ne_none p ?_
    rw [← missing]
    exact (Option.filter_eq_some_iff.mpr ⟨hp, decide_eq_true rfl⟩).symm
  | failed channelID p synthesisReply sent found =>
    refine h.erase rfl rfl fun c q hq => ?_
    unfold Voter.fail at hq
    dsimp only at hq
    rcases eq_or_ne c channelID with rfl | hne
    · rw [Function.update_self] at hq
      split_ifs at hq
      cases hq
      exact ⟨p, found, rfl, (if_pos rfl).symm⟩
    · rw [Function.update_of_ne hne] at hq
      exact ⟨q, hq, rfl, (if_neg (h.other found hne hq).1).symm⟩
  | published channelID p synthesisReply closed sent found closes judged =>
    refine h.erase rfl rfl fun c q hq => ?_
    obtain ⟨hne, hq⟩ := update_none_eq_some hq
    exact ⟨q, hq, rfl, (if_neg (h.other found hne hq).1).symm⟩

end Persatrix.Interactions
